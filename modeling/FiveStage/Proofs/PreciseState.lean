import FiveStage.Proofs.Refinement

/-! # Precise states

Registers are written a stage behind memory, and still every cycle ends in a state that the
functional model goes through (`cycle_boundary_precise`): between the two stages is at most one
instruction, and one that writes memory writes no register. -/

namespace FiveStage

open Instruction

/-- How many functional steps the registers and the memory have come after `n` cycles: those of the
instructions that have retired, and that of a store which is about to retire. -/
def Core.performed (n : Nat) (c : Core) : Nat :=
  (Core.retired n c).length +
    ((Core.runTicks n c).pipeline.slots.memory.isLive &&
      (Core.runTicks n c).pipeline.slots.memory.isStore).toNat

namespace Sequential

theorem untrapped_of_foresee {s : Sequential} {i : Instruction}
    (h : (s.foresee i).trapped = false) : s.trapped = false := by
  rw [trapped_foresee, Bool.or_eq_false_iff] at h
  exact h.1

theorem untrapped_of_pass {s : Sequential} {i : Instruction} (h : (s.pass i).trapped = false) :
    s.trapped = false := by
  unfold pass at h
  split at h
  · rw [trapped_next, Bool.or_assoc, Bool.or_eq_false_iff] at h
    exact h.1
  · exact h

/-- An instruction that is no store leaves the memory alone. -/
theorem memory_next_of_not_store (s : Sequential) {i : Instruction} {w : InstWord}
    (hw : i.flags = w.flags) (hs : i.isStore = false) : (s.next i).memory = s.memory := by
  have hstored : i.stored s.memory = s.memory := by
    have : i.flags.writesMem = false := by
      apply Bool.eq_false_iff.mpr
      intro h
      rw [isStore, h, hw, w.legal_of_writesMem (hw ▸ h)] at hs
      cases hs
    simp [stored, this]
  unfold next
  split
  · exact hstored
  · rfl
  · rfl

end Sequential

/-- A store writes no register. -/
theorem dest_of_store {i : Instruction} {w : InstWord} (hw : i.flags = w.flags)
    (hs : i.isStore = true) : i.dest = none := by
  simp only [isStore, Bool.and_eq_true] at hs
  have := (w.flags_store (hw ▸ hs.2)).2.2.1
  simp [dest, hw, this]

/-- Before any exception, the state behind an instruction follows the machine on. -/
theorem Sequential.InStep.pass_of_untrapped {s : Sequential} {m : Machine} (h : s.InStep m)
    (hid : m.nextId = 0) (hsafe : m.FetchSafe) {i : Instruction}
    (hacc : i.isLive = true → s.Accepts i) (ht : (s.pass i).trapped = false) :
    (s.pass i).InStep m := by
  cases hl : i.isLive with
  | false => rw [pass_of_not_live _ hl]; exact h
  | true =>
    have hacc := hacc hl
    rw [pass_of_live _ hl, h.record_eq hsafe hid hacc] at ht ⊢
    rw [trapped_next, Bool.or_assoc, Bool.or_eq_false_iff] at ht
    exact h.next hacc.running (stepEnd_ne_failed_iff.mpr ht.2)

/-- Without an exception none of the states in the pipeline is behind a failure. -/
theorem Consistent.untrapped {s : Sequential} {c : Core} (h : Consistent s c)
    (hx : c.machine.counters.exceptions = 0) :
    c.pipeline.control.exceptionRaised = false ∧ (c.decodePoint s).trapped = false ∧
      (c.executePoint s).trapped = false ∧ (c.memoryPoint s).trapped = false := by
  have hraised : c.pipeline.control.exceptionRaised = false := by
    rw [h.exceptions] at hx
    cases hb : c.pipeline.control.exceptionRaised with
    | false => rfl
    | true => rw [hb] at hx; cases hx
  have hd := h.raised.symm.trans hraised
  have he := Sequential.untrapped_of_foresee hd
  exact ⟨hraised, hd, he, Sequential.untrapped_of_foresee he⟩

/-- After cycles without an exception the pipeline is on the way of the functional run, and so is
the instruction in its memory slot. -/
theorem Machine.Fresh.reached_of_no_exception {m : Machine} (h : m.Fresh) (hsafe : m.FetchSafe)
    {k : Nat} (hx : (Core.runTicks k m.core).machine.counters.exceptions = 0) :
    ∃ s, Reached (Sequential.start m) m.core k s ∧ s.InStep m ∧
      ((Core.runTicks k m.core).memoryPoint s).InStep m := by
  obtain ⟨s, hr⟩ | ⟨_, _, _, _, _, hend⟩ := h.consistent.simulation k
  · obtain ⟨-, -, -, ht⟩ := hr.consistent.untrapped hx
    obtain ⟨hin, -⟩ := h.retired_eq hsafe hr (Sequential.untrapped_of_pass ht)
    refine ⟨s, hr, hin, ?_⟩
    exact hin.pass_of_untrapped h.counters.2 hsafe
      (fun hl => (hr.consistent.completed hl).accepts) ht
  · have := hend.exceptions
    omega

/-- After any number of cycles in which no exception has been raised, frozen cycles included, the
registers and the memory are those that the functional model reaches after `Core.performed` steps.
-/
theorem cycle_boundary_precise {m : Machine} (h : m.Fresh) (hsafe : m.FetchSafe) (n : Nat)
    (hx : (Core.runTicks n m.core).machine.counters.exceptions = 0) :
    m.Reaches (Core.performed n m.core - 1) ∧
    (Core.runTicks n m.core).machine.regs = (m.after (Core.performed n m.core)).regs ∧
    (Core.runTicks n m.core).machine.memory = (m.after (Core.performed n m.core)).memory := by
  obtain ⟨s, hr, hin, hpoint⟩ := h.reached_of_no_exception hsafe hx
  have hc := hr.consistent
  have hreach : m.Reaches (s.retired - 1) := by
    cases hh : s.halted with
    | false => exact (hin.follows.running hh).mono (Nat.sub_le _ _)
    | true =>
      obtain ⟨k, hk, hreach, -⟩ := hin.follows.stopped hh
      rw [hk]
      exact hreach
  rw [hc.regs, hc.memory]
  unfold Core.performed
  rw [hr.length_retired]
  cases hl : (Core.runTicks n m.core).pipeline.slots.memory.isLive with
  | false =>
    have hpass : (Core.runTicks n m.core).memoryPoint s = s := Sequential.pass_of_not_live _ hl
    rw [hpass]
    exact ⟨hreach, hin.follows.regs, hin.follows.memory⟩
  | true =>
    obtain ⟨hacc, hrec⟩ := hc.completed hl
    have hflags : (Core.runTicks n m.core).pipeline.slots.memory.flags =
        (Core.runTicks n m.core).pipeline.slots.memory.raw.flags := by rw [hrec]; simp
    have hpass : (Core.runTicks n m.core).memoryPoint s =
        s.next (Core.runTicks n m.core).pipeline.slots.memory :=
      (Sequential.pass_of_live _ hl).trans (by rw [← hrec])
    cases hs : (Core.runTicks n m.core).pipeline.slots.memory.isStore with
    | false =>
      rw [hpass, Sequential.memory_next_of_not_store _ hflags hs]
      exact ⟨hreach, hin.follows.regs, hin.follows.memory⟩
    | true =>
      have hlen : ((Core.runTicks n m.core).memoryPoint s).retired = s.retired + 1 := by
        rw [hpass, Sequential.retired_next]
      have hregs : ((Core.runTicks n m.core).memoryPoint s).regs = s.regs := by
        rw [hc.regs_memoryPoint, commit_of_dest_none (dest_of_store hflags hs)]
      rw [← hregs, hpoint.follows.regs, hpoint.follows.memory, hlen]
      exact ⟨hin.follows.running hacc.running, rfl, rfl⟩

/-- In a cycle that the miss of a store freezes, the store has been performed and not retired. -/
theorem cycle_boundary_precise_storing :
    Machine.storing.Fresh ∧ Machine.storing.FetchSafe ∧
    (Core.runTicks 12 Machine.storing.core).machine.counters.exceptions = 0 ∧
    (Core.runTicks 12 Machine.storing.core).machine.memory = (Machine.storing.after 2).memory := by
  have hfresh : Machine.storing.Fresh := Machine.fresh_ofConfig rfl _ _
  have hx : (Core.runTicks 12 Machine.storing.core).machine.counters.exceptions = 0 := by
    decide +kernel
  refine ⟨hfresh, fetchSafe_storing, hx, ?_⟩
  have hj : Core.performed 12 Machine.storing.core = 2 := by decide +kernel
  have := (cycle_boundary_precise hfresh fetchSafe_storing 12 hx).2.2
  rwa [hj] at this

end FiveStage
