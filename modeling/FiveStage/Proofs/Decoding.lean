import FiveStage.Proofs.Issue

/-! # Decode

Decode takes over what fetch holds: the word of the next instruction, a word on a wrong path that is
thrown away, or nothing. A word that is decoded may raise an exception, halt fetch, wait for
operands or steer fetch (`Taking.decodePhase`). -/

namespace FiveStage

open Instruction

/-- The instruction decoded from the word that fetch holds. -/
def Core.decodedWord (c : Core) : Instruction :=
  (c.machine.decodeStage c.pipeline.slots.fetch).1

/-- The pipeline with the decoded word in its slot, and the control state the word asks for. -/
def Core.takeWord (c : Core) (counters : Counters) (controlPending : Bool)
    (redirect : Option Word) (exceptionRaised fetchHalted : Bool) : Core :=
  { machine := { c.machine with counters, nextId := c.machine.nextId + 1 }
    pipeline :=
      { c.pipeline with
        slots := { c.pipeline.slots with decode := c.decodedWord }
        control :=
          { c.pipeline.control with controlPending, redirect, exceptionRaised, fetchHalted } } }

theorem decodeStage_eq (m : Machine) {i : Instruction} (h : i.isFetched = true) :
    (m.decodeStage i).2 = { m with nextId := m.nextId + 1 } ∧ ∃ next,
      (m.decodeStage i).1 = { issued m.regs i.pc i.raw m.nextId with nextPc := next } ∧
      next =
        if (issued m.regs i.pc i.raw m.nextId).needsOperands then i.fallThrough
        else (issued m.regs i.pc i.raw m.nextId).successor := by
  unfold Machine.decodeStage
  rw [if_pos h]
  refine ⟨rfl, ?_⟩
  show ∃ next, (if (i.raw.flags.legal && decide (Opcode.ofCode? i.raw.opcode = some .jal)) = true
    then { issued m.regs i.pc i.raw m.nextId with
      nextPc := (issued m.regs i.pc i.raw m.nextId).successor }
    else issued m.regs i.pc i.raw m.nextId) = _ ∧ _
  cases hj : (i.raw.flags.legal && decide (Opcode.ofCode? i.raw.opcode = some .jal)) with
  | true =>
    refine ⟨_, if_pos rfl, (if_neg ?_).symm⟩
    simp only [Bool.and_eq_true, decide_eq_true_eq] at hj
    simp [needsOperands, hj.2]
  | false =>
    refine ⟨i.fallThrough, if_neg (by simp), ?_⟩
    cases hn : (issued m.regs i.pc i.raw m.nextId).needsOperands with
    | true => rfl
    | false =>
      rw [if_neg (by simp), successor_of_not_control]
      · rfl
      · simp only [needsOperands, issued_flags, issued_class] at hn
        simp only [isControl, issued_flags, issued_class]
        cases hl : i.raw.flags.legal <;> simp_all

/-- What is known of the decoded instruction. -/
structure DecodedWord (c : Core) : Prop where
  live : c.decodedWord.isLive = true
  clean : c.decodedWord.memFault = false
  raw : c.decodedWord.raw = c.pipeline.slots.fetch.raw
  pc : c.decodedWord.pc = c.pipeline.slots.fetch.pc
  id : c.decodedWord.id = c.machine.nextId
  flags : c.decodedWord.flags = c.decodedWord.raw.flags
  opcode : c.decodedWord.class? = Opcode.ofCode? c.decodedWord.raw.opcode
  decoded : ∀ producer, Decoded c.machine.regs c.pipeline.slots.fetch.pc
    c.decodedWord.needsOperands producer c.decodedWord

theorem decodedWord_spec {c : Core} (h : c.pipeline.slots.fetch.isFetched = true) :
    DecodedWord c := by
  obtain ⟨-, next, hd, hnext⟩ := decodeStage_eq c.machine h
  change c.decodedWord = _ at hd
  constructor
  all_goals rw [hd]
  case decoded =>
    exact fun _ => ⟨rfl, hnext, fun hn => hn, fun hp hn => by rw [hp] at hn; cases hn⟩
  all_goals rfl

section Phase

variable {c : Core}

/-- Decode takes over a word that has been fetched. -/
theorem decodePhase_of_fetched (hr : c.pipeline.control.redirect = none)
    (hs : c.pipeline.control.fetchStall = 0) (hf : c.pipeline.slots.fetch.isFetched = true) :
    c.decodePhase =
      ({ c with machine := { c.machine with nextId := c.machine.nextId + 1 } }.dispatch
        c.decodedWord).setDecode c.decodedWord := by
  have hidle : ¬ c.pipeline.slots.fetch.status = .idle := by
    intro hi
    simp [isFetched, hi] at hf
  obtain ⟨hmach, -⟩ := decodeStage_eq c.machine hf
  unfold Core.decodePhase
  rw [hr]
  simp only [hs, Nat.lt_irrefl, if_false, hidle]
  rw [← hmach]
  rfl

theorem decodePhase_of_idle (hr : c.pipeline.control.redirect = none)
    (hs : c.pipeline.control.fetchStall = 0) (hf : c.pipeline.slots.fetch = .idle) :
    c.decodePhase = c.setDecode .idle := by
  have hidle : c.pipeline.slots.fetch.status = .idle := by rw [hf]; rfl
  unfold Core.decodePhase
  rw [hr]
  simp only [hs, Nat.lt_irrefl, if_false, hidle, if_true]

end Phase

/-- An illegal word would be decoded while an exception has been raised already. -/
structure SecondIllegal (s : Sequential) (c : Core) : Prop where
  raised : c.pipeline.control.exceptionRaised = true
  redirect : c.pipeline.control.redirect = none
  running : (c.executePoint s).halted = false
  word : ∃ w, (c.executePoint s).Sees (c.executePoint s).pc w ∧ w.flags.legal = false

/-- Decode is about to take over the word of the next instruction. -/
structure Taking (s : Sequential) (c : Core) : Prop extends Executing s c where
  redirect : c.pipeline.control.redirect = none
  stall : c.pipeline.control.fetchStall = 0
  fetched : c.pipeline.slots.fetch.isFetched = true
  fetching : c.pipeline.control.fetchHalted = false
  running : (c.executePoint s).halted = false
  behind : c.machine.pc = c.pipeline.slots.fetch.fallThrough
  address : c.pipeline.slots.fetch.pc = (c.executePoint s).pc
  sees : (c.executePoint s).Sees c.pipeline.slots.fetch.pc c.pipeline.slots.fetch.raw

namespace Taking

variable {s : Sequential} {c : Core}

theorem word (h : Taking s c) : DecodedWord c := decodedWord_spec h.fetched

/-- The pipeline with the decoded word in its slot, whatever the word asks of fetch. -/
theorem settled (h : Taking s c) (counters : Counters)
    (hins : counters.instructions = c.machine.counters.instructions)
    (pending : Bool) (redirect : Option Word) (raised halted : Bool)
    (hpending : pending = c.decodedWord.needsOperands)
    (hexc : counters.exceptions = raised.toNat)
    (hraised : raised = (c.pipeline.control.exceptionRaised || !c.decodedWord.flags.legal)) :
    Settled s (c.takeWord counters pending redirect raised halted) := by
  subst hpending
  have hw := h.word
  have htrap : ((c.executePoint s).foresee c.decodedWord).trapped = raised := by
    rw [Sequential.trapped_foresee, hw.live, hraised, h.raised, hw.flags]
    rfl
  refine ⟨?_, h.writes, h.committed, fun _ => hw.live, fun _ => hw.live⟩
  exact {
    regs := h.regs
    memory := h.memory
    instructions := hins.trans h.instructions
    exceptions := hexc
    status := h.status
    completed := h.completed
    executed := h.executed
    executeClean := h.executeClean
    accepted := by
      intro _
      show (c.executePoint s).Accepts c.decodedWord
      refine ⟨h.running, ?_, fun ht => hw.id.trans (h.numbering ht)⟩
      rw [hw.raw, ← h.address]
      exact h.sees
    decoded := by
      intro _
      show Decoded (if c.decodedWord.needsOperands || !c.decodedWord.needsOperands then _ else _)
        _ c.decodedWord.needsOperands _ c.decodedWord
      rw [Bool.or_not_self, if_pos rfl, ← h.regs]
      show Decoded _ (c.executePoint s).pc _ _ _
      rw [← h.address]
      exact hw.decoded _
    decodeClean := hw.clean
    raised := htrap.symm
    numbering := by
      intro ht
      change ((c.executePoint s).foresee c.decodedWord).trapped = false at ht
      show c.machine.nextId + 1 = ((c.executePoint s).foresee c.decodedWord).retired
      have hn : (c.executePoint s).trapped = false := by
        rw [htrap] at ht
        rw [← h.raised]
        exact (Bool.or_eq_false_iff.mp (hraised.symm.trans ht)).1
      rw [h.numbering hn, Sequential.foresee_of_live _ hw.live, Sequential.retired_next] }

/-- A word that is an instruction is settled without an exception. -/
theorem settled_of_legal (h : Taking s c) (hl : c.decodedWord.flags.legal = true) {pending : Bool}
    (redirect : Option Word) (halted : Bool) (hn : pending = c.decodedWord.needsOperands) :
    Settled s (c.takeWord c.machine.counters pending redirect c.pipeline.control.exceptionRaised
      halted) :=
  h.settled _ rfl _ _ _ _ hn h.exceptions (by simp [hl])

/-- Behind the decoded word the run goes on unless it is the halt word. -/
theorem halted (h : Taking s c) :
    ((c.executePoint s).foresee c.decodedWord).halted = c.decodedWord.flags.halt := by
  rw [Sequential.halted_foresee, h.running, h.word.live, Bool.false_or, Bool.true_and,
    h.word.flags]

/-- Memory is as the instruction behind the decoded one may be fetched from it. -/
theorem near_behind (h : Taking s c) (hl : c.decodedWord.flags.legal = true) :
    c.machine.memory = ((c.executePoint s).foresee c.decodedWord).recent ∨
      c.machine.memory = ((c.executePoint s).foresee c.decodedWord).older := by
  rw [Sequential.recent_foresee, if_pos h.word.live,
    Sequential.older_foresee _ h.word.live (by rw [← h.word.flags]; exact hl)]
  exact h.near

theorem fallThrough_eq (h : Taking s c) : c.machine.pc = c.decodedWord.fallThrough := by
  rw [h.behind, fallThrough, fallThrough, h.word.pc]

theorem decodePhase_eq (h : Taking s c) :
    c.decodePhase =
      ({ c with machine := { c.machine with nextId := c.machine.nextId + 1 } }.dispatch
        c.decodedWord).setDecode c.decodedWord :=
  decodePhase_of_fetched h.redirect h.stall h.fetched

/-- An illegal word raises the first exception, which steers fetch, or a second one. -/
theorem decode_illegal (h : Taking s c) (hl : c.decodedWord.flags.legal = false) :
    (Settled s c.decodePhase ∧ Aim (c.decodePhase.decodePoint s) c.decodePhase) ∨
      (SecondIllegal s c ∧ c.decodePhase.EndedTwice) := by
  have hw := h.word
  have e := h.decodePhase_eq
  have hd : ∀ d : Core, d.dispatch c.decodedWord = d.raise := fun d => if_pos (by simp [hl])
  rw [hd] at e
  cases hx : c.pipeline.control.exceptionRaised with
  | true =>
    refine .inr ⟨⟨hx, h.redirect, h.running, _, h.address ▸ h.sees, ?_⟩, ?_⟩
    · rw [← hw.raw, ← hw.flags, hl]
    · have hend := endedTwice_raise
        (c := { c with machine := { c.machine with nextId := c.machine.nextId + 1 } }) hx
        (by rw [h.exceptions, hx]; exact Nat.le_refl 1)
      rw [e]
      exact ⟨hend.status, hend.exceptions⟩
  | false =>
    have hn : false = c.decodedWord.needsOperands := by simp [needsOperands, hl]
    have e' : c.decodePhase = c.takeWord
        { c.machine.counters with exceptions := c.machine.counters.exceptions + 1 } false
        (some exceptionHandler) true c.pipeline.control.fetchHalted := by
      rw [e, raise_first _ (by exact hx), ← h.pending]
      rfl
    rw [e']
    refine .inl ⟨h.settled _ ?_ _ _ _ _ hn ?_ (by simp [hl]), .steering rfl ?_ ?_⟩
    · rfl
    · show c.machine.counters.exceptions + 1 = 1
      rw [h.exceptions, hx]
      rfl
    · show some exceptionHandler = some ((c.executePoint s).foresee c.decodedWord).pc
      rw [Sequential.pc_foresee_of_illegal _ hw.live (by rw [← hw.flags]; exact hl)]
    · show ((c.executePoint s).foresee c.decodedWord).halted = false
      rw [h.halted, hw.flags, InstWord.flags_illegal (hw.flags ▸ hl)]

/-- The halt word puts fetch to rest. -/
theorem decode_halt (h : Taking s c) (hl : c.decodedWord.flags.legal = true)
    (hh : c.decodedWord.flags.halt = true) :
    Settled s c.decodePhase ∧ Aim (c.decodePhase.decodePoint s) c.decodePhase := by
  have hw := h.word
  have hn : c.decodedWord.needsOperands = false := by
    apply Bool.eq_false_iff.mpr
    intro hn
    rw [hw.flags, (halt_of_needsOperands hw.flags hw.opcode hn).2] at hh
    cases hh
  have e : c.decodePhase = c.takeWord c.machine.counters false none
      c.pipeline.control.exceptionRaised true := by
    rw [h.decodePhase_eq, Core.dispatch, if_neg (by simp [hl]), if_pos hh, ← h.pending,
      ← h.redirect]
    rfl
  rw [e]
  exact ⟨h.settled_of_legal hl _ _ hn.symm, .resting rfl rfl rfl (h.halted.trans hh)⟩

/-- A branch or jump that needs operands waits for them. -/
theorem decode_waiting (h : Taking s c) (hl : c.decodedWord.flags.legal = true)
    (hh : c.decodedWord.flags.halt = false) (hn : c.decodedWord.needsOperands = true) :
    Settled s c.decodePhase ∧ Aim (c.decodePhase.decodePoint s) c.decodePhase := by
  have e : c.decodePhase = c.takeWord c.machine.counters true none
      c.pipeline.control.exceptionRaised c.pipeline.control.fetchHalted := by
    rw [h.decodePhase_eq, Core.dispatch, if_neg (by simp [hl]), if_neg (by simp [hh]), if_pos hn,
      ← h.redirect]
    rfl
  rw [e]
  exact ⟨h.settled_of_legal hl _ _ hn.symm, .waiting rfl rfl h.fetching (h.halted.trans hh)
    h.word.live h.fallThrough_eq (h.near_behind hl)⟩

/-- Any other instruction is followed by the next word, or steers fetch to its target. -/
theorem decode_resolved (h : Taking s c) (hl : c.decodedWord.flags.legal = true)
    (hh : c.decodedWord.flags.halt = false) (hn : c.decodedWord.needsOperands = false) :
    Settled s c.decodePhase ∧ Aim (c.decodePhase.decodePoint s) c.decodePhase := by
  have hw := h.word
  have hrun := h.halted.trans hh
  have e := h.decodePhase_eq
  rw [Core.dispatch, if_neg (by simp [hl]), if_neg (by simp [hh]), if_neg (by simp [hn])] at e
  by_cases ht : c.decodedWord.nextPc = c.decodedWord.fallThrough
  · have e' : c.decodePhase = c.takeWord c.machine.counters false none
        c.pipeline.control.exceptionRaised c.pipeline.control.fetchHalted := by
      rw [e, if_neg (not_not_intro ht), ← h.pending, ← h.redirect]
      rfl
    have hb := h.settled_of_legal hl none c.pipeline.control.fetchHalted hn.symm
    have hpc := hb.pc_decodePoint hw.live rfl (hw.flags ▸ hl) (hw.flags ▸ hh)
    rw [e']
    exact ⟨hb, .following rfl rfl h.fetching hrun ((h.fallThrough_eq.trans ht.symm).trans hpc.symm)
      (h.near_behind hl)⟩
  · have e' : c.decodePhase = c.takeWord c.machine.counters false (some c.decodedWord.nextPc)
        c.pipeline.control.exceptionRaised c.pipeline.control.fetchHalted := by
      rw [e, if_pos ht, ← h.pending]
      rfl
    have hb := h.settled_of_legal hl (some c.decodedWord.nextPc) c.pipeline.control.fetchHalted
      hn.symm
    have hpc := hb.pc_decodePoint hw.live rfl (hw.flags ▸ hl) (hw.flags ▸ hh)
    rw [e']
    exact ⟨hb, .steering rfl (congrArg some hpc.symm) hrun⟩

theorem decodePhase (h : Taking s c) :
    (Settled s c.decodePhase ∧ Aim (c.decodePhase.decodePoint s) c.decodePhase) ∨
      (SecondIllegal s c ∧ c.decodePhase.EndedTwice) := by
  cases hl : c.decodedWord.flags.legal with
  | false => exact h.decode_illegal hl
  | true =>
    left
    cases hh : c.decodedWord.flags.halt with
    | true => exact h.decode_halt hl hh
    | false =>
      cases hn : c.decodedWord.needsOperands with
      | true => exact h.decode_waiting hl hh hn
      | false => exact h.decode_resolved hl hh hn

end Taking

namespace Executing

variable {s : Sequential} {c : Core}

/-- The pipeline when decode has taken over nothing that is live. -/
theorem vacant (h : Executing s c) (c' : Core)
    (hm : c'.pipeline.slots.memory = c.pipeline.slots.memory)
    (he : c'.pipeline.slots.execute = c.pipeline.slots.execute)
    (hw : c'.pipeline.slots.writeback = c.pipeline.slots.writeback)
    (hd : c'.pipeline.slots.decode.isLive = false)
    (hclean : c'.pipeline.slots.decode.memFault = false)
    (hstatus : c'.pipeline.status = c.pipeline.status)
    (hpending : c'.pipeline.control.controlPending = c.pipeline.control.controlPending)
    (hredirect : c'.pipeline.control.redirect = none)
    (hraised : c'.pipeline.control.exceptionRaised = c.pipeline.control.exceptionRaised)
    (hregs : c'.machine.regs = c.machine.regs) (hmemory : c'.machine.memory = c.machine.memory)
    (hinstructions : c'.machine.counters.instructions = c.machine.counters.instructions)
    (hexceptions : c'.machine.counters.exceptions = c.machine.counters.exceptions)
    (hid : c'.machine.nextId = c.machine.nextId) :
    Settled s c' ∧ c'.decodePoint s = c.executePoint s := by
  have pm : c'.memoryPoint s = c.memoryPoint s := congrArg s.pass hm
  have pe : c'.executePoint s = c.executePoint s := by
    unfold Core.executePoint; rw [pm, he]
  have pd : c'.decodePoint s = c.executePoint s := by
    unfold Core.decodePoint; rw [Sequential.foresee_of_not_live _ hd, pe]
  have hp := hpending.trans h.pending
  refine ⟨⟨?_, hw ▸ h.writes, hw ▸ h.committed, fun hx => ?_, fun hx => ?_⟩, pd⟩
  · exact {
      regs := hregs.trans h.regs
      memory := by rw [hmemory, pm]; exact h.memory
      instructions := hinstructions.trans h.instructions
      exceptions := by rw [hexceptions, hraised]; exact h.exceptions
      status := hstatus.trans h.status
      completed := by rw [hm]; exact h.completed
      executed := by rw [he, hm, pm]; exact h.executed
      executeClean := by rw [he]; exact h.executeClean
      accepted := by
        intro hl
        rw [hd] at hl
        cases hl
      decoded := by
        intro hl
        rw [hd] at hl
        cases hl
      decodeClean := hclean
      raised := by rw [hraised, pd]; exact h.raised
      numbering := by rw [hid, pd]; exact h.numbering }
  · rw [hp] at hx; cases hx
  · rw [hredirect] at hx; cases hx

theorem discard_fetch_clean {i : Instruction} (h : i.isFetched = true ∨ i = .idle) :
    (Core.discard i).memFault = false := by
  unfold Core.discard
  rcases h with h | h
  · rw [if_pos h]; rfl
  · rw [h]; rfl

/-- Decode moves on. -/
theorem decodePhase (h : Executing s c) (hready : c.fetchReady = true) :
    (Settled s c.decodePhase ∧ Aim (c.decodePhase.decodePoint s) c.decodePhase) ∨
      (SecondIllegal s c ∧ c.decodePhase.EndedTwice) := by
  have stall : c.pipeline.control.redirect = none → c.pipeline.control.fetchStall = 0 := by
    intro hr
    simpa [Core.fetchReady, hr] using hready
  cases h.frontEnd with
  | starting h1 h2 h3 h4 h5 h6 h7 =>
    refine .inl ?_
    rw [decodePhase_of_idle h3 (stall h3) h1]
    have hv := h.vacant (c.setDecode .idle) rfl rfl rfl rfl rfl rfl rfl h3 rfl rfl rfl rfl rfl
      rfl
    refine ⟨hv.1, ?_⟩
    rw [hv.2]
    exact .following h2 h3 h4 h5 h6 (.inl h7.symm)
  | following h1 _ h3 h4 h5 h6 h7 h8 =>
    exact Taking.decodePhase ⟨h, h3, stall h3, h1, h4, h5, h6, h7, h8⟩
  | waiting _ h2 => rw [h.pending] at h2; cases h2
  | steering h1 h2 h3 h4 =>
    refine .inl ?_
    have e : c.decodePhase = c.redirectPhase (c.executePoint s).pc := by
      unfold Core.decodePhase
      rw [h3]
    rw [e]
    have hmem : (c.redirectPhase (c.executePoint s).pc).machine.memory = c.machine.memory := by
      simp [Core.redirectPhase]
    have hpending : (c.redirectPhase (c.executePoint s).pc).pipeline.control.controlPending =
        c.pipeline.control.controlPending := by simp [Core.redirectPhase]
    have hv := h.vacant (c.redirectPhase (c.executePoint s).pc) (by simp [Core.redirectPhase])
      (by simp [Core.redirectPhase]) (by simp [Core.redirectPhase]) (discard_not_live _)
      (discard_fetch_clean h1) (by simp [Core.redirectPhase]) hpending rfl
      (by simp [Core.redirectPhase]) (by simp [Core.redirectPhase]) hmem
      (by simp [Core.redirectPhase]) (by simp [Core.redirectPhase]) (by simp [Core.redirectPhase])
    refine ⟨hv.1, ?_⟩
    rw [hv.2]
    refine .following (hpending.trans h2) rfl rfl h4 rfl (.inl (hmem.trans ?_))
    exact (h.steered (by rw [h3]; rfl)).symm
  | resting h1 h2 h3 h4 h5 =>
    refine .inl ?_
    rw [decodePhase_of_idle h3 (stall h3) h1]
    have hv := h.vacant (c.setDecode .idle) rfl rfl rfl rfl rfl rfl rfl h3 rfl rfl rfl rfl rfl
      rfl
    refine ⟨hv.1, ?_⟩
    rw [hv.2]
    exact .resting h2 h3 h4 h5

/-- Decode waits for fetch. -/
theorem awaitFetch (h : Executing s c) (hready : c.fetchReady = false) :
    Settled s c.decodePhase ∧ FrontEnd (c.decodePhase.decodePoint s) c.decodePhase := by
  simp only [Core.fetchReady, Bool.or_eq_false_iff, decide_eq_false_iff_not] at hready
  obtain ⟨hr, hs⟩ := hready
  have hr : c.pipeline.control.redirect = none := by simpa using hr
  have e : c.decodePhase = c.awaitFetch := by
    unfold Core.decodePhase
    rw [hr]
    simp only [Nat.pos_of_ne_zero hs, if_true]
  rw [e]
  have hv := h.vacant c.awaitFetch rfl rfl rfl rfl rfl rfl rfl hr rfl rfl rfl rfl rfl rfl
  refine ⟨hv.1, ?_⟩
  rw [hv.2]
  cases h.frontEnd with
  | starting h1 h2 h3 h4 h5 h6 h7 h8 h9 =>
    exact .starting h1 h2 h3 h4 h5 h6 h7 h8 h9 rfl
  | following h1 h2 h3 h4 h5 h6 h7 h8 => exact .following h1 h2 h3 h4 h5 h6 h7 h8
  | waiting _ h2 => rw [h.pending] at h2; cases h2
  | steering _ _ h3 => rw [hr] at h3; cases h3
  | resting h1 h2 h3 h4 h5 => exact .resting h1 h2 h3 h4 h5

end Executing

end FiveStage
