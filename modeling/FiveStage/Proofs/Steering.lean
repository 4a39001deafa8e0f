import FiveStage.Proofs.RetireHalf

/-! # Fetch and the branches that steer it

The last steps of a cycle. When decode has moved on, the instructions behind fetch are again those
of program order (`Settled`). A branch or jump that waits is resolved (`Resolves`), and what fetch
does then is fixed (`Aim`). -/

namespace FiveStage

open Instruction

/-- What fetch does next when it moves on. -/
inductive Aim (s : Sequential) (c : Core) : Prop
  | following (pending : c.pipeline.control.controlPending = false)
      (redirect : c.pipeline.control.redirect = none)
      (halted : c.pipeline.control.fetchHalted = false) (running : s.halted = false)
      (pc : c.machine.pc = s.pc) (near : c.machine.memory = s.recent ∨ c.machine.memory = s.older)
  | waiting (pending : c.pipeline.control.controlPending = true)
      (redirect : c.pipeline.control.redirect = none)
      (halted : c.pipeline.control.fetchHalted = false) (running : s.halted = false)
      (decode : c.pipeline.slots.decode.isLive = true)
      (pc : c.machine.pc = c.pipeline.slots.decode.fallThrough)
      (near : c.machine.memory = s.recent ∨ c.machine.memory = s.older)
  | steering (pending : c.pipeline.control.controlPending = false)
      (redirect : c.pipeline.control.redirect = some s.pc) (running : s.halted = false)
  | resting (pending : c.pipeline.control.controlPending = false)
      (redirect : c.pipeline.control.redirect = none)
      (halted : c.pipeline.control.fetchHalted = true) (stopped : s.halted = true)

/-- The pipeline when decode has moved on, and fetch has not. -/
structure Settled (s : Sequential) (c : Core) : Prop extends BackEnd s c where
  writes : c.pipeline.slots.writeback.WritesRegister
  committed : c.pipeline.slots.writeback.commit s.regs = s.regs
  pending : c.pipeline.control.controlPending = true → c.pipeline.slots.decode.isLive = true
  steered : c.pipeline.control.redirect.isSome = true → c.pipeline.slots.decode.isLive = true

/-- What fetch changes. -/
theorem fetchPhase_shape (c : Core) : ∃ fetch icache pc fetchStall,
    c.fetchPhase =
      { machine := { c.machine with icache, pc }
        pipeline :=
          { c.pipeline with
            slots := { c.pipeline.slots with fetch }
            control := { c.pipeline.control with fetchStall } } } := by
  cases h : c.pipeline.control.fetchHalted with
  | true => exact ⟨.idle, _, _, _, if_pos h⟩
  | false => exact ⟨_, _, _, _, if_neg (Bool.eq_false_iff.1 h)⟩

theorem fetch_fetchPhase_of_halted {c : Core} (h : c.pipeline.control.fetchHalted = true) :
    c.fetchPhase.pipeline.slots.fetch = .idle := by
  unfold Core.fetchPhase
  rw [if_pos h]

/-- What a moving fetch leaves in its slot. -/
theorem fetch_fetchPhase {c : Core} (h : c.pipeline.control.fetchHalted = false) :
    c.fetchPhase.pipeline.slots.fetch.isFetched = true ∧
      c.fetchPhase.pipeline.slots.fetch.pc = c.machine.pc ∧
      c.fetchPhase.pipeline.slots.fetch.raw = c.machine.memory.instructionAt c.machine.pc ∧
      c.fetchPhase.machine.pc = c.machine.pc + 4 := by
  have hn : ¬ c.pipeline.control.fetchHalted = true := Bool.eq_false_iff.1 h
  unfold Core.fetchPhase
  rw [if_neg hn]
  refine ⟨?_, rfl, rfl, rfl⟩
  show isFetched (.fetched _ _ (if _ then _ else _)) = true
  split <;> rfl

/-- Fetch brings in the word that the next instruction may see. -/
theorem Aim.fetchPhase {s : Sequential} {c : Core} (h : Aim s c) : FrontEnd s c.fetchPhase := by
  have sees : ∀ pc, (c.machine.memory = s.recent ∨ c.machine.memory = s.older) →
      s.Sees pc (c.machine.memory.instructionAt pc) := by
    rintro pc (hm | hm)
    · exact .inl (by rw [hm])
    · exact .inr (by rw [hm])
  obtain ⟨fetch, icache, pc, fetchStall, e⟩ := fetchPhase_shape c
  cases h with
  | following h1 h2 h3 h4 h5 h6 =>
    obtain ⟨e1, e2, e3, e4⟩ := fetch_fetchPhase h3
    rw [e] at e1 e2 e3 e4 ⊢
    refine .following e1 h1 h2 h3 h4 ?_ (e2.trans h5) ?_
    · rw [e4, fallThrough_eq, e2]
    · rw [e2, e3]; exact sees _ h6
  | waiting h1 h2 h3 h4 h5 h6 h7 =>
    obtain ⟨e1, e2, e3, e4⟩ := fetch_fetchPhase h3
    rw [e] at e1 e2 e3 e4 ⊢
    refine .waiting e1 h1 h2 h3 h4 ?_ h5 (e2.trans h6) ?_
    · rw [e4, fallThrough_eq, e2]
    · rw [e2, e3]; exact sees _ h7
  | steering h1 h2 h3 =>
    have hs : c.fetchPhase.pipeline.slots.fetch.isFetched = true ∨
        c.fetchPhase.pipeline.slots.fetch = .idle := by
      cases hh : c.pipeline.control.fetchHalted with
      | false => exact .inl (fetch_fetchPhase hh).1
      | true => exact .inr (fetch_fetchPhase_of_halted hh)
    rw [e] at hs ⊢
    exact .steering hs h1 h2 h3
  | resting h1 h2 h3 h4 =>
    have hs := fetch_fetchPhase_of_halted h3
    rw [e] at hs ⊢
    exact .resting hs h1 h2 h3 h4

/-- Fetch moves on. -/
theorem Settled.fetchPhase {s : Sequential} {c : Core} (h : Settled s c)
    (ha : Aim (c.decodePoint s) c) : Consistent s c.fetchPhase := by
  have hf := ha.fetchPhase
  obtain ⟨fetch, icache, pc, fetchStall, e⟩ := fetchPhase_shape c
  rw [e] at hf ⊢
  exact ⟨h.toBackEnd.congr rfl rfl rfl rfl rfl rfl rfl rfl rfl rfl rfl, hf, h.steered⟩

/-- Fetch waits. -/
theorem Settled.fetchWait {s : Sequential} {c : Core} (h : Settled s c)
    (hf : FrontEnd (c.decodePoint s) c) : Consistent s c.fetchWait := by
  refine ⟨h.toBackEnd.congr rfl rfl rfl rfl rfl rfl rfl rfl rfl rfl rfl, ?_, h.steered⟩
  exact hf.congr rfl rfl rfl rfl rfl rfl rfl fun hm he _ => ⟨hm, he, rfl⟩

theorem ignores_of_blocksControl {i producer : Instruction}
    (h : blocksControl i producer false = false) : i.Ignores producer := by
  intro rd hd
  simpa [blocksControl, hd] using h

theorem ignores_of_blocksControl_load {i producer : Instruction}
    (h : blocksControl i producer true = false) (hl : producer.isLoad = true) :
    i.Ignores producer := by
  intro rd hd
  simpa [blocksControl, hd, hl] using h

/-- A branch or jump that waits for operands is no halt word. -/
theorem halt_of_needsOperands {i : Instruction} {w : InstWord} (hf : i.flags = w.flags)
    (hc : i.class? = Opcode.ofCode? w.opcode) (h : i.needsOperands = true) :
    w.flags.legal = true ∧ w.flags.halt = false := by
  simp only [needsOperands, hf, hc, Bool.and_eq_true, Bool.or_eq_true] at h
  obtain ⟨hl, hc⟩ := h
  refine ⟨hl, ?_⟩
  rcases hc with hc | hc
  all_goals rw [InstWord.flags_of_legal (of_decide_eq_true hc) (by decide) hl]; rfl

/-- What an instruction that completes is followed by. -/
theorem Sequential.pc_foresee (s : Sequential) {i : Instruction} (hi : i.isLive = true)
    (hl : i.raw.flags.legal = true) (hh : i.raw.flags.halt = false) :
    (s.foresee i).pc = (issued s.regs s.pc i.raw i.id).successor := by
  rw [foresee_of_live _ hi]
  have he := stepEnd_completed (i := { s.record i.raw i.id with memFault := false })
    (by simpa using hl) rfl (by simpa using hh)
  rw [next_of_completed _ he]
  exact record_nextPc _ _ _

namespace BackEnd

variable {s : Sequential} {c : Core}

/-- An instruction that ignores the executed one is issued alike before and after it. -/
theorem issued_executePoint (h : BackEnd s c) (pc : Word) (w : InstWord) (id : Nat)
    (hi : (issued (c.memoryPoint s).regs pc w id).Ignores c.pipeline.slots.execute) :
    issued (c.executePoint s).regs pc w id = issued (c.memoryPoint s).regs pc w id := by
  cases hx : c.pipeline.slots.execute.isLive with
  | false =>
    have : c.executePoint s = c.memoryPoint s := Sequential.foresee_of_not_live _ hx
    rw [this]
  | true =>
    have he : c.executePoint s = (c.memoryPoint s).next _ := Sequential.foresee_of_live _ hx
    rw [he, Sequential.regs_next _ (w := c.pipeline.slots.execute.raw) (by simp)]
    refine issued_commit_of_ignores _ _ _ _ (writesRegister_of_rd ?_) fun rd hd => hi rd ?_
    · exact Sequential.record_rd_lt _ _ _
    · rw [← hd, (h.executed hx).dest_eq]
      exact dest_congr (by simp) (by simp) (by simp) (by simp)

/-- The decoded instruction is followed by the one it leads to. -/
theorem pc_decodePoint (h : BackEnd s c) (hd : c.pipeline.slots.decode.isLive = true)
    (hp : c.pipeline.control.controlPending = false)
    (hl : c.pipeline.slots.decode.raw.flags.legal = true)
    (hh : c.pipeline.slots.decode.raw.flags.halt = false) :
    (c.decodePoint s).pc = c.pipeline.slots.decode.nextPc := by
  have hdec := h.decoded hd
  rw [hp] at hdec
  have hnext := hdec.nextPc
  rw [if_neg (by simp)] at hnext
  refine (Sequential.pc_foresee _ hd hl hh).trans (Eq.trans ?_ hnext.symm)
  rw [hdec.successor_eq]
  cases hn : c.pipeline.slots.decode.needsOperands with
  | true =>
    rw [hn] at hdec
    exact congrArg successor (h.issued_executePoint _ _ _ (hdec.ignores (hdec.ready rfl hn)))
  | false => exact successor_issued_congr _ _ _ _ _ (hdec.needsOperands_eq ▸ hn)

/-- The instruction in decode with all its operands and its successor. -/
def resolved (s : Sequential) (c : Core) : Instruction :=
  let i := issued (c.memoryPoint s).regs (c.executePoint s).pc c.pipeline.slots.decode.raw
    c.pipeline.slots.decode.id
  { i with nextPc := i.successor }

/-- A waiting branch or jump whose operands are ready gets them all by forwarding. -/
theorem forward_eq_resolved (h : BackEnd s c) (hw : c.pipeline.slots.writeback.WritesRegister)
    (hc : c.pipeline.slots.writeback.commit s.regs = s.regs)
    (hd : c.pipeline.slots.decode.isLive = true)
    (hp : c.pipeline.control.controlPending = true)
    (hr : controlReady c.pipeline.slots.decode c.pipeline.slots.execute c.pipeline.slots.memory =
      true) :
    (c.pipeline.slots.decode.forward c.pipeline.slots.writeback .writeback).forward
        c.pipeline.slots.memory .memory =
      { resolved s c with nextPc := c.pipeline.slots.decode.nextPc } ∧
    (resolved s c).needsOperands = true ∧
    (resolved s c).Ignores c.pipeline.slots.execute := by
  have hdec := h.decoded hd
  rw [hp, Bool.true_or, if_pos rfl] at hdec
  simp only [controlReady, Bool.and_eq_true, Bool.not_eq_true'] at hr
  have hneeds := hdec.waits rfl
  rw [hdec.needsOperands_eq] at hneeds
  have hex := hdec.ignores (ignores_of_blocksControl hr.1)
  have hmem := fun hl => hdec.ignores (ignores_of_blocksControl_load hr.2 hl)
  refine ⟨?_, hneeds, hex⟩
  conv => lhs; rw [hdec.form]
  rw [forward_writeback _ _ _ _ _ hw, hc, forward_memory _ _ _ _ _ h.writesRegister hmem,
    ← h.regs_memoryPoint]
  rfl

/-- A branch or jump that has been resolved stays where it is. -/
theorem resolve (h : BackEnd s c) (hd : c.pipeline.slots.decode.isLive = true)
    (hn : (resolved s c).needsOperands = true)
    (hi : (resolved s c).Ignores c.pipeline.slots.execute) (redirect : Option Word) :
    BackEnd s
      { c with
        pipeline.slots := { c.pipeline.slots with decode := resolved s c }
        pipeline.control := { c.pipeline.control with controlPending := false, redirect } } := by
  have hacc := h.accepted hd
  have pd : (c.executePoint s).foresee (resolved s c) = c.decodePoint s :=
    Sequential.foresee_congr _ hd.symm rfl rfl
  exact {
    regs := h.regs
    memory := h.memory
    instructions := h.instructions
    exceptions := h.exceptions
    status := h.status
    completed := h.completed
    executed := h.executed
    executeClean := h.executeClean
    accepted := fun _ => ⟨hacc.running, hacc.sees, hacc.numbered⟩
    decoded := by
      intro _
      show Decoded (if false || !(resolved s c).needsOperands then _ else _) _ false _
        (resolved s c)
      rw [hn]
      exact ⟨rfl, rfl, nofun, fun _ _ => hi⟩
    decodeClean := rfl
    raised := h.raised.trans (congrArg Sequential.trapped pd.symm)
    numbering := by
      intro ht
      change ((c.executePoint s).foresee (resolved s c)).trapped = false at ht
      show _ = ((c.executePoint s).foresee (resolved s c)).retired
      rw [pd] at ht ⊢
      exact h.numbering ht }

end BackEnd

/-- What becomes of the control state when the instruction in decode is resolved: fetch goes on
behind it, or is steered to its target. -/
structure Resolves (t : Sequential) (c c' : Core) : Prop where
  machine : c'.machine = c.machine
  fetch : c'.pipeline.slots.fetch = c.pipeline.slots.fetch
  halted : c'.pipeline.control.fetchHalted = c.pipeline.control.fetchHalted
  waited : c.pipeline.control.controlPending = true
  pending : c'.pipeline.control.controlPending = false
  target : c'.pipeline.control.redirect = c.pipeline.control.redirect ∧
      c.pipeline.slots.decode.fallThrough = t.pc ∨
    c'.pipeline.control.redirect = some t.pc

/-- Resolving a branch or jump settles it. -/
theorem Settled.resolvePhase {s : Sequential} {c : Core} (h : Settled s c) :
    Settled s c.resolvePhase ∧ c.resolvePhase.decodePoint s = c.decodePoint s ∧
      (c.resolvePhase = c ∨ Resolves (c.decodePoint s) c c.resolvePhase) := by
  cases hr : (c.pipeline.control.controlPending &&
      controlReady c.pipeline.slots.decode c.pipeline.slots.execute c.pipeline.slots.memory) with
  | false =>
    have e : c.resolvePhase = c := if_neg (Bool.eq_false_iff.1 hr)
    rw [e]
    exact ⟨h, rfl, .inl rfl⟩
  | true =>
    obtain ⟨hp, hready⟩ := (Bool.and_eq_true _ _).mp hr
    have hd := h.pending hp
    obtain ⟨hfwd, hn, hi⟩ := h.forward_eq_resolved h.writes h.committed hd hp hready
    have e : c.resolvePhase =
        { c with
          pipeline.slots := { c.pipeline.slots with decode := BackEnd.resolved s c }
          pipeline.control :=
            { c.pipeline.control with
              controlPending := false
              redirect :=
                if (BackEnd.resolved s c).nextPc ≠ (BackEnd.resolved s c).fallThrough then
                  some (BackEnd.resolved s c).nextPc
                else c.pipeline.control.redirect } } := by
      refine (if_pos hr).trans ?_
      rw [hfwd]
      rfl
    rw [e]
    have hb := h.toBackEnd.resolve hd hn hi
      (if (BackEnd.resolved s c).nextPc ≠ (BackEnd.resolved s c).fallThrough then
        some (BackEnd.resolved s c).nextPc else c.pipeline.control.redirect)
    have pd : (c.executePoint s).foresee (BackEnd.resolved s c) = c.decodePoint s :=
      Sequential.foresee_congr _ hd.symm rfl rfl
    obtain ⟨hl, hh⟩ := halt_of_needsOperands rfl rfl hn
    have hpc := hb.pc_decodePoint rfl rfl hl hh
    refine ⟨⟨hb, h.writes, h.committed, nofun, fun _ => rfl⟩, pd,
      .inr ⟨rfl, rfl, rfl, hp, rfl, ?_⟩⟩
    have hpc' : (c.decodePoint s).pc = (BackEnd.resolved s c).nextPc :=
      (congrArg Sequential.pc pd.symm).trans hpc
    have hfall : c.pipeline.slots.decode.fallThrough = (BackEnd.resolved s c).fallThrough :=
      congrArg (· + 4) (h.decoded hd).pc_eq
    rw [hpc', hfall]
    by_cases ht : (BackEnd.resolved s c).nextPc = (BackEnd.resolved s c).fallThrough
    · exact .inl ⟨if_neg (not_not_intro ht), ht.symm⟩
    · exact .inr (if_pos ht)

theorem FrontEnd.resolves {t : Sequential} {c c' : Core} (h : FrontEnd t c)
    (hr : Resolves t c c') : FrontEnd t c' := by
  have hp := hr.waited
  cases h with
  | waiting h1 _ h3 h4 h5 h6 h7 h8 h9 =>
    rcases hr.target with ⟨ht, hpc⟩ | ht
    · exact .following (hr.fetch ▸ h1) hr.pending (ht.trans h3) (hr.halted.trans h4) h5
        (by rw [hr.machine, h6, hr.fetch]) (by rw [hr.fetch, h8, hpc]) (hr.fetch ▸ h9)
    · exact .steering (.inl (hr.fetch ▸ h1)) hr.pending ht h5
  | starting _ h2 => rw [h2] at hp; cases hp
  | following _ h2 => rw [h2] at hp; cases hp
  | steering _ h2 => rw [h2] at hp; cases hp
  | resting _ h2 => rw [h2] at hp; cases hp

theorem Aim.resolves {t : Sequential} {c c' : Core} (h : Aim t c) (hr : Resolves t c c') :
    Aim t c' := by
  have hp := hr.waited
  cases h with
  | waiting _ h2 h3 h4 h5 h6 h7 =>
    rcases hr.target with ⟨ht, hpc⟩ | ht
    · exact .following hr.pending (ht.trans h2) (hr.halted.trans h3) h4
        (by rw [hr.machine, h6, hpc]) (by rw [hr.machine]; exact h7)
    · exact .steering hr.pending ht h4
  | following h1 => rw [h1] at hp; cases hp
  | steering h1 => rw [h1] at hp; cases hp
  | resting h1 => rw [h1] at hp; cases hp

end FiveStage
