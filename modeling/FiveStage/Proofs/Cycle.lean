import FiveStage.Proofs.Decoding

/-! # One clock cycle

The two halves of a cycle put together: a cycle keeps the pipeline consistent, moving on by the
instruction that retires, or a second exception ends the run (`Consistent.tick_moving`). What can
raise a second exception is named by `SecondException`. -/

namespace FiveStage

open Instruction

/-- The ways in which the next cycle may raise a second exception. -/
inductive SecondException (s : Sequential) (c : Core) : Prop
  /-- the executed instruction is about to fail to access memory -/
  | fault (raised : c.pipeline.control.exceptionRaised = true)
      (live : c.pipeline.slots.execute.isLive = true)
      (fails : ((c.memoryPoint s).record c.pipeline.slots.execute.raw
        c.pipeline.slots.execute.id).memFault = true)
  /-- the next word is no instruction -/
  | illegal (raised : c.pipeline.control.exceptionRaised = true)
      (running : (c.decodePoint s).halted = false) (w : InstWord)
      (sees : (c.decodePoint s).Sees (c.decodePoint s).pc w) (illegal : w.flags.legal = false)

section Frame

variable (c : Core) (i : Instruction)

@[simp] theorem slots_dispatch : (c.dispatch i).pipeline.slots = c.pipeline.slots := by
  unfold Core.dispatch
  (repeat' split) <;> first | rfl | exact slots_raise _

/-- Resolving a branch changes the slot of decode and where fetch goes. -/
theorem resolvePhase_shape : ∃ decode controlPending redirect,
    c.resolvePhase =
      { c with
        pipeline.slots := { c.pipeline.slots with decode }
        pipeline.control := { c.pipeline.control with controlPending, redirect } } := by
  unfold Core.resolvePhase
  simp only
  split
  · exact ⟨_, _, _, rfl⟩
  · exact ⟨_, _, _, rfl⟩

theorem slots_decodePhase : ∃ decode,
    c.decodePhase.pipeline.slots = { c.pipeline.slots with decode } := by
  unfold Core.decodePhase
  split
  · exact ⟨Core.discard c.pipeline.slots.fetch, by simp [Core.redirectPhase]⟩
  · split
    · exact ⟨_, rfl⟩
    · split
      · exact ⟨_, rfl⟩
      · refine ⟨c.decodedWord, ?_⟩
        have := slots_dispatch
          { c with machine := (c.machine.decodeStage c.pipeline.slots.fetch).2 } c.decodedWord
        exact congrArg (fun slots : Slots => { slots with decode := c.decodedWord }) this

theorem issueHalf_slots :
    c.issueHalf.pipeline.slots.writeback = c.pipeline.slots.writeback ∧
      c.issueHalf.pipeline.slots.memory = c.pipeline.slots.memory := by
  unfold Core.issueHalf
  cases hk : c.hold? with
  | some k =>
    obtain ⟨_, -, -, e⟩ := holdPhase_shape c k
    obtain ⟨_, _, _, e'⟩ := resolvePhase_shape (c.holdPhase k)
    simp only
    rw [e', e]
    exact ⟨rfl, rfl⟩
  | none =>
    obtain ⟨_, e⟩ := slots_decodePhase c.executePhase
    obtain ⟨_, _, _, e'⟩ := resolvePhase_shape c.executePhase.decodePhase
    obtain ⟨_, _, _, _, e''⟩ := fetchPhase_shape c.executePhase.decodePhase.resolvePhase
    simp only
    split
    · rw [e'', e', e]; exact ⟨rfl, rfl⟩
    · rw [e']
      change c.executePhase.decodePhase.pipeline.slots.writeback = _ ∧
        c.executePhase.decodePhase.pipeline.slots.memory = _
      rw [e]; exact ⟨rfl, rfl⟩

/-- What the second half of a cycle leaves in the execute slot. -/
theorem issueHalf_execute :
    c.issueHalf.pipeline.slots.execute =
      if c.hold?.isSome then .bubble else c.executePhase.pipeline.slots.execute := by
  unfold Core.issueHalf
  cases hk : c.hold? with
  | some k =>
    obtain ⟨_, -, -, e⟩ := holdPhase_shape c k
    obtain ⟨_, _, _, e'⟩ := resolvePhase_shape (c.holdPhase k)
    simp only
    rw [e', e]
    rfl
  | none =>
    obtain ⟨_, e⟩ := slots_decodePhase c.executePhase
    obtain ⟨_, _, _, e'⟩ := resolvePhase_shape c.executePhase.decodePhase
    obtain ⟨_, _, _, _, e''⟩ := fetchPhase_shape c.executePhase.decodePhase.resolvePhase
    simp only
    split
    · rw [e'', e', e]; rfl
    · rw [e']
      change c.executePhase.decodePhase.pipeline.slots.execute = _
      rw [e]; rfl

end Frame

theorem RunStatus.eq_success {s : RunStatus} (h : s.isTerminal = false) : s = .success := by
  cases s <;> first | rfl | cases h

namespace Core

section Tick

variable {c : Core}

theorem tick_of_terminal (h : c.pipeline.status.isTerminal = true) : c.tick = c := if_pos h

/-- A run that goes on after a cycle has gone on before it. -/
theorem running_of_tick (h : c.tick.pipeline.status.isTerminal = false) :
    c.pipeline.status.isTerminal = false := by
  refine Bool.eq_false_iff.mpr fun ht => ?_
  rw [tick_of_terminal ht] at h
  exact Bool.eq_false_iff.mp h ht

theorem tick_of_frozen (hs : c.pipeline.status = .success)
    (hm : 0 < c.pipeline.control.memStall) : c.tick = c.countCycle.frozenCycle := by
  unfold tick
  rw [hs, if_neg (by simp [RunStatus.isTerminal])]
  exact if_pos hm

theorem tick_of_moving (hs : c.pipeline.status = .success)
    (hm : c.pipeline.control.memStall = 0) : c.tick = c.countCycle.movingCycle := by
  unfold tick
  rw [hs, if_neg (by simp [RunStatus.isTerminal])]
  exact if_neg (Nat.not_lt.mpr (Nat.le_of_eq hm))

end Tick

/-- What a part of a cycle does to the exceptions and to the end of a run: it takes none of them
back. -/
structure Onward (c c' : Core) : Prop where
  exceptions : c.machine.counters.exceptions ≤ c'.machine.counters.exceptions
  status : c.pipeline.status = .exception → c'.pipeline.status = .exception
  terminal : c.pipeline.status.isTerminal = true → c'.pipeline.status.isTerminal = true

variable {c c' c'' : Core}

theorem Onward.congr (hs : c'.pipeline.status = c.pipeline.status)
    (he : c'.machine.counters.exceptions = c.machine.counters.exceptions) : c.Onward c' :=
  ⟨Nat.le_of_eq he.symm, hs.trans, fun h => hs ▸ h⟩

theorem Onward.trans (h : c.Onward c') (h' : c'.Onward c'') : c.Onward c'' :=
  ⟨Nat.le_trans h.exceptions h'.exceptions, h'.status ∘ h.status, h'.terminal ∘ h.terminal⟩

theorem EndedTwice.onward (h : c.EndedTwice) (ho : c.Onward c') : c'.EndedTwice :=
  ⟨ho.status h.status, Nat.le_trans h.exceptions ho.exceptions⟩

section Phases

variable (c : Core)

theorem onward_raise : c.Onward c.raise := by
  have hle : c.machine.counters.exceptions ≤ c.raise.machine.counters.exceptions := by
    rw [machine_raise]
    exact Nat.le_succ _
  cases hx : c.pipeline.control.exceptionRaised with
  | false =>
    have hs : c.raise.pipeline.status = c.pipeline.status := by rw [raise_first c hx]
    exact ⟨hle, hs.trans, fun h => hs ▸ h⟩
  | true =>
    have hs : c.raise.pipeline.status = .exception := by rw [raise_again c hx]
    exact ⟨hle, fun _ => hs, fun _ => by rw [hs]; rfl⟩

theorem onward_resolvePhase : c.Onward c.resolvePhase := by
  obtain ⟨_, _, _, e⟩ := resolvePhase_shape c
  rw [e]
  exact .congr rfl rfl

theorem onward_fetchPhase : c.Onward c.fetchPhase := by
  obtain ⟨_, _, _, _, e⟩ := fetchPhase_shape c
  rw [e]
  exact .congr rfl rfl

theorem onward_dispatch (i : Instruction) : c.Onward (c.dispatch i) := by
  unfold dispatch
  (repeat' split) <;> first | exact c.onward_raise | exact .congr rfl rfl

theorem onward_decodePhase : c.Onward c.decodePhase := by
  unfold decodePhase
  split
  · exact .congr (by simp [redirectPhase]) (by simp [redirectPhase])
  · split
    · exact .congr rfl rfl
    · split
      · exact .congr rfl rfl
      · have hm : (c.machine.decodeStage c.pipeline.slots.fetch).2.counters =
            c.machine.counters := by
          unfold Machine.decodeStage; split <;> rfl
        have hc : c.Onward { c with machine := (c.machine.decodeStage c.pipeline.slots.fetch).2 } :=
          .congr rfl (congrArg Counters.exceptions hm)
        exact (hc.trans (onward_dispatch _ _)).trans (.congr rfl rfl)

theorem onward_issueHalf : c.Onward c.issueHalf := by
  unfold issueHalf
  cases hk : c.hold? with
  | some k =>
    obtain ⟨_, -, he, e⟩ := holdPhase_shape c k
    have hh : c.Onward (c.holdPhase k) := by rw [e]; exact .congr rfl he
    exact (hh.trans (onward_resolvePhase _)).trans (.congr rfl rfl)
  | none =>
    have hx : c.Onward c.executePhase := .congr rfl rfl
    have hd := (hx.trans (onward_decodePhase _)).trans (onward_resolvePhase _)
    simp only
    split
    · exact hd.trans (onward_fetchPhase _)
    · exact hd.trans (.congr rfl rfl)

theorem onward_flushDecode : c.Onward c.flushDecode :=
  .congr (by rw [pipeline_flushDecode]) (exceptions_countSquash _ _)

theorem onward_retireHalf : c.writebackPhase.accessPhase.Onward c.retireHalf := by
  rw [retireHalf_eq]
  split
  · split
    · exact onward_raise _
    · exact (onward_raise _).trans (onward_flushDecode _)
  · exact .congr rfl rfl

end Phases

/-- No cycle takes an exception back. -/
theorem exceptions_le_tick (c : Core) :
    c.machine.counters.exceptions ≤ c.tick.machine.counters.exceptions := by
  cases ht : c.pipeline.status.isTerminal with
  | true => exact Nat.le_of_eq (by rw [tick_of_terminal ht])
  | false =>
    have hs := RunStatus.eq_success ht
    rcases Nat.eq_zero_or_pos c.pipeline.control.memStall with hm | hm
    · have he : c.countCycle.writebackPhase.accessPhase.machine.counters.exceptions =
          c.machine.counters.exceptions := by
        change ((c.countCycle.machine.writebackStage _).memoryStage _).2.counters.exceptions = _
        rw [counters_memoryStage, exceptions_writebackStage]
        rfl
      rw [tick_of_moving hs hm, ← he]
      exact ((onward_retireHalf _).trans (onward_issueHalf _)).exceptions
    · refine Nat.le_of_eq ?_
      rw [tick_of_frozen hs hm]
      rfl

end Core

/-- The second half of a cycle. -/
theorem MidCycle.issueHalf {s : Sequential} {c : Core} (h : MidCycle s c) :
    Consistent s c.issueHalf ∨
      (c.pipeline.control.redirect = none ∧ c.pipeline.control.exceptionRaised = true ∧
        ((c.memoryPoint s).foresee c.pipeline.slots.decode).halted = false ∧
        (∃ w, ((c.memoryPoint s).foresee c.pipeline.slots.decode).Sees
          ((c.memoryPoint s).foresee c.pipeline.slots.decode).pc w ∧ w.flags.legal = false) ∧
        c.issueHalf.EndedTwice) := by
  -- fetch follows the instruction in decode, resolved or not
  have moves : ∀ d : Core, Settled s d → Aim (d.decodePoint s) d →
      Consistent s d.resolvePhase.fetchPhase := by
    intro d hs ha
    obtain ⟨hs', pd, e | hr⟩ := hs.resolvePhase
    · rw [e]; exact hs.fetchPhase ha
    · exact hs'.fetchPhase (pd ▸ ha.resolves hr)
  have waits : ∀ d : Core, Settled s d → FrontEnd (d.decodePoint s) d →
      Consistent s d.resolvePhase.fetchWait := by
    intro d hs hf
    obtain ⟨hs', pd, e | hr⟩ := hs.resolvePhase
    · rw [e]; exact hs.fetchWait hf
    · exact hs'.fetchWait (pd ▸ hf.resolves hr)
  unfold Core.issueHalf
  cases hk : c.hold? with
  | some k =>
    obtain ⟨hs, hf⟩ := h.holdPhase hk
    exact .inl (waits _ hs hf)
  | none =>
    have hx := h.executePhase hk
    simp only
    cases hready : c.executePhase.fetchReady with
    | true =>
      rw [if_pos rfl]
      rcases hx.decodePhase hready with ⟨hs, ha⟩ | ⟨hi, hend⟩
      · exact .inl (moves _ hs ha)
      · obtain ⟨w, hsees, hw⟩ := hi.word
        have hrun := hi.running
        rw [executePoint_executePhase] at hsees hrun
        have hend := hend.onward (Core.onward_resolvePhase _)
        exact .inr ⟨hi.redirect, hi.raised, hrun, ⟨w, hsees, hw⟩,
          hend.onward (Core.onward_fetchPhase _)⟩
    | false =>
      rw [if_neg (by simp)]
      obtain ⟨hs, hf⟩ := hx.awaitFetch hready
      exact .inl (waits _ hs hf)

namespace Consistent

variable {s : Sequential} {c : Core}

theorem countCycle (h : Consistent s c) : Consistent s c.countCycle := by
  refine ⟨h.toBackEnd.congr rfl rfl rfl rfl rfl rfl rfl rfl rfl rfl rfl, ?_, h.steered⟩
  exact h.frontEnd.congr rfl rfl rfl rfl rfl rfl rfl fun hm he _ => ⟨hm, he, rfl⟩

theorem movingCycle (h : Consistent s c) (hs : c.pipeline.status = .success) :
    Consistent (c.memoryPoint s) c.movingCycle ∨
      (SecondException s c ∧ c.movingCycle.EndedTwice) := by
  rcases h.retireHalf hs with ⟨hm, hd⟩ | ⟨hr, hx, hf, hend⟩
  · rcases hm.issueHalf with hc | ⟨hn, hr, hrun, ⟨w, hsees, hw⟩, hend⟩
    · exact .inl hc
    · obtain ⟨pd, px⟩ := hd hn
      rw [pd] at hsees hrun
      exact .inr ⟨.illegal (px ▸ hr) hrun w hsees hw, hend⟩
  · exact .inr ⟨.fault hr hx hf, hend.onward (Core.onward_issueHalf _)⟩

/-- In a frozen cycle nothing retires. -/
theorem tick_frozen (h : Consistent s c) (hs : c.pipeline.status = .success)
    (hm : 0 < c.pipeline.control.memStall) : Consistent s c.tick := by
  rw [Core.tick_of_frozen hs hm]
  exact h.countCycle.frozenCycle

/-- In any other cycle the instruction in the memory slot retires, if there is one. -/
theorem tick_moving (h : Consistent s c) (hs : c.pipeline.status = .success)
    (hm : c.pipeline.control.memStall = 0) :
    Consistent (c.memoryPoint s) c.tick ∨ (SecondException s c ∧ c.tick.EndedTwice) := by
  rw [Core.tick_of_moving hs hm]
  rcases h.countCycle.movingCycle hs with hc | ⟨hx, hend⟩
  · exact .inl hc
  · refine .inr ⟨?_, hend⟩
    cases hx with
    | fault h1 h2 h3 => exact .fault h1 h2 h3
    | illegal h1 h2 w h3 h4 => exact .illegal h1 h2 w h3 h4

/-- An executed instruction that fails behind an exception ends the run in such a cycle. -/
theorem tick_of_fault (h : Consistent s c) (hs : c.pipeline.status = .success)
    (hm : c.pipeline.control.memStall = 0) (hr : c.pipeline.control.exceptionRaised = true)
    (hx : c.pipeline.slots.execute.isLive = true)
    (hfails : ((c.memoryPoint s).record c.pipeline.slots.execute.raw
      c.pipeline.slots.execute.id).memFault = true) : c.tick.EndedTwice := by
  rw [Core.tick_of_moving hs hm]
  exact (h.countCycle.retireHalf_of_fault hr hx hfails).onward (Core.onward_issueHalf _)

end Consistent

/-- A moving cycle shifts the instructions by one slot, or throws them away. -/
theorem movingCycle_slots (c : Core) :
    c.movingCycle.pipeline.slots.writeback = c.pipeline.slots.memory ∧
      c.movingCycle.pipeline.slots.memory.isLive = c.pipeline.slots.execute.isLive ∧
      c.movingCycle.pipeline.slots.memory.raw = c.pipeline.slots.execute.raw ∧
      (c.movingCycle.pipeline.slots.execute.isLive = true →
        c.pipeline.slots.decode.isLive = true ∧
          c.movingCycle.pipeline.slots.execute.raw = c.pipeline.slots.decode.raw ∧
          c.movingCycle.pipeline.slots.execute.id = c.pipeline.slots.decode.id) := by
  obtain ⟨h1, h2⟩ := issueHalf_slots c.retireHalf
  obtain ⟨h3, h4, h5, h6⟩ := retireHalf_slots c
  refine ⟨h1.trans h3, (congrArg isLive h2).trans h4, (congrArg Instruction.raw h2).trans h5, ?_⟩
  intro hl
  have e : c.movingCycle.pipeline.slots.execute =
      c.retireHalf.issueHalf.pipeline.slots.execute := rfl
  rw [e, issueHalf_execute] at hl ⊢
  split at hl
  next => cases hl
  next hk =>
    rw [if_neg hk]
    have hd : c.retireHalf.pipeline.slots.decode.isLive = true := by
      refine Eq.trans ?_ hl
      exact ((isLive_executed _).trans ((isLive_forward _ _ _).trans (isLive_forward _ _ _))).symm
    have hraw : c.retireHalf.executePhase.pipeline.slots.execute.raw =
        c.retireHalf.pipeline.slots.decode.raw :=
      (raw_executed _).trans ((raw_forward _ _ _).trans (raw_forward _ _ _))
    have hid : c.retireHalf.executePhase.pipeline.slots.execute.id =
        c.retireHalf.pipeline.slots.decode.id :=
      (id_executed _).trans ((id_forward _ _ _).trans (id_forward _ _ _))
    rcases h6 with h6 | h6
    · rw [hraw, hid, ← h6]; exact ⟨hd, rfl, rfl⟩
    · rw [h6, discard_not_live] at hd
      cases hd

theorem tick_slots {c : Core} (hs : c.pipeline.status = .success)
    (hm : c.pipeline.control.memStall = 0) :
    c.tick.pipeline.slots.writeback = c.pipeline.slots.memory ∧
      c.tick.pipeline.slots.memory.isLive = c.pipeline.slots.execute.isLive ∧
      c.tick.pipeline.slots.memory.raw = c.pipeline.slots.execute.raw ∧
      (c.tick.pipeline.slots.execute.isLive = true →
        c.pipeline.slots.decode.isLive = true ∧
          c.tick.pipeline.slots.execute.raw = c.pipeline.slots.decode.raw ∧
          c.tick.pipeline.slots.execute.id = c.pipeline.slots.decode.id) := by
  rw [Core.tick_of_moving hs hm]
  exact movingCycle_slots c.countCycle

end FiveStage
