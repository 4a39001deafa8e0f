import FiveStage.Proofs.Conservation
import FiveStage.Proofs.Handler

/-! # Memory faults

A failing access that raises the first exception flushes the pipeline, whatever was in flight behind
it: in the same cycle the younger instructions are gone, fetch holds the first word of the exception
handler, and nothing that decode or fetch was waiting for is left (`Core.Flushed`). The machine is
the one that the access found. From there on the instructions that retire are the steps of the
handler, since an instruction that fails behind an exception ends the run before it can retire
(`Core.Unfailing`). -/

namespace FiveStage

open Instruction

/-- A live instruction is a legal one. -/
def Instruction.Vetted (i : Instruction) : Prop := i.isLive = true → i.flags.legal = true

namespace Instruction.Vetted

variable {i j : Instruction}

theorem of_not_live (h : i.isLive = false) : i.Vetted :=
  fun hl => absurd (h.symm.trans hl) (by decide)

theorem congr (h : i.Vetted) (hl : j.isLive = i.isLive) (hf : j.flags = i.flags) : j.Vetted :=
  fun hj => (congrArg Flags.legal hf).trans (h (hl.symm.trans hj))

theorem of_outline (h : i.Vetted) (ho : j.outline = i.outline) : j.Vetted :=
  h.congr (congrArg (fun o => o.isLive) ho) (congrArg (fun o => o.flags) ho)

end Instruction.Vetted

namespace Core

/-- What a failing access that raises the first exception leaves of the pipeline. -/
structure Flushed (c : Core) : Prop where
  execute : c.pipeline.slots.execute.isLive = false
  decode : c.pipeline.slots.decode.isLive = false
  fetch : c.pipeline.slots.fetch =
    .fetched exceptionHandler (c.machine.memory.instructionAt exceptionHandler) .normal
  pending : c.pipeline.control.controlPending = false
  redirect : c.pipeline.control.redirect = none
  halted : c.pipeline.control.fetchHalted = false
  memStall : c.pipeline.control.memStall = 0

/-- What has come as far as execute has been decoded to a legal instruction. -/
structure Vetted (c : Core) : Prop where
  decode : c.pipeline.slots.decode.Vetted
  execute : c.pipeline.slots.execute.Vetted

/-- What is about to retire has not failed either. -/
structure Unfailing (c : Core) : Prop extends Vetted c where
  memory : c.pipeline.slots.memory.isLive = true → c.pipeline.slots.memory.stepEnd ≠ .failed

variable {c : Core}

section Flushing

/-- A failing access does not ask the data cache. -/
theorem memStall_of_faults (hf : c.faults = true)
    (hclean : c.pipeline.slots.execute.memFault = false) :
    c.writebackPhase.accessPhase.pipeline.control.memStall = c.pipeline.control.memStall := by
  let i := c.pipeline.slots.execute.forwardStoreData c.pipeline.slots.memory
  have hi : i.memFault = false := (forwardStoreData_fields _ _).2.2.2.trans hclean
  have hfault : (c.writebackPhase.machine.memoryStage i).1.memFault = true := hf
  have hhit : c.writebackPhase.machine.accessHits i = true := by
    unfold Machine.memoryStage at hfault
    unfold Machine.accessHits
    split at hfault
    · split at hfault
      · exact absurd (hi.symm.trans hfault) (by decide)
      next hfit => simp [hfit]
    · exact absurd (hi.symm.trans hfault) (by decide)
  exact if_pos hhit

/-- Fetch at the exception handler, with nothing in flight that has been decoded. -/
theorem flushed_fetchPhase (hpc : c.machine.pc = exceptionHandler)
    (hexecute : c.pipeline.slots.execute.isLive = false)
    (hdecode : c.pipeline.slots.decode.isLive = false)
    (hpending : c.pipeline.control.controlPending = false)
    (hredirect : c.pipeline.control.redirect = none)
    (hhalted : c.pipeline.control.fetchHalted = false)
    (hstall : c.pipeline.control.memStall = 0) : c.fetchPhase.Flushed := by
  have e : c.fetchPhase = _ := if_neg (Bool.eq_false_iff.mp hhalted)
  rw [e]
  refine ⟨hexecute, hdecode, ?_, hpending, hredirect, hhalted, hstall⟩
  change Instruction.fetched c.machine.pc (c.machine.memory.instructionAt c.machine.pc)
    (if c.pipeline.control.controlPending || c.pipeline.control.redirect.isSome then _ else _) = _
  rw [hpc, hpending, hredirect]
  rfl

/-- A cycle whose access raises the first exception flushes the pipeline. -/
theorem flushed_movingCycle (hx : c.flushes = true) (hm : c.pipeline.control.memStall = 0)
    (hclean : c.pipeline.slots.execute.memFault = false)
    (hslot : c.pipeline.slots.fetch.isFetched = true ∨ c.pipeline.slots.fetch = .idle) :
    c.movingCycle.Flushed := by
  have hf : c.faults = true := (Bool.and_eq_true_iff.mp hx).1
  have hstall := (memStall_of_faults hf hclean).trans hm
  obtain ⟨hcontrol, hdead, hfree⟩ := c.retireHalf_of_flushes hx
  have hredirect : c.retireHalf.pipeline.control.redirect = some exceptionHandler := by
    rw [hcontrol]
  cases c.retireHalf.course (by rw [fetch_retireHalf]; exact hslot) with
  | held k hk => exact absurd (hk.symm.trans hfree) nofun
  | awaiting _ hr => exact absurd (hr.symm.trans hredirect) nofun
  | vacant _ hr => exact absurd (hr.symm.trans hredirect) nofun
  | taking _ hr => exact absurd (hr.symm.trans hredirect) nofun
  | turning target _ hr e =>
    cases hr.symm.trans hredirect
    rw [show c.movingCycle = c.retireHalf.issueHalf from rfl, e, redirectPhase_eq]
    refine flushed_fetchPhase rfl ?_ (discard_not_live _) ?_ rfl rfl ?_
    · -- what would have executed has been thrown away in decode
      refine Eq.trans ?_ hdead
      exact (isLive_executed _).trans ((isLive_forward _ _ _).trans (isLive_forward _ _ _))
    · exact congrArg Control.controlPending hcontrol
    · exact (congrArg Control.memStall hcontrol).trans hstall

end Flushing

section Failing

/-- Resolving a branch or jump changes neither what it is nor whether it is live. -/
theorem vetted_resolvePhase (h : c.pipeline.slots.decode.Vetted) :
    c.resolvePhase.pipeline.slots.decode.Vetted := by
  rcases c.resolvePhase_cases with e | ⟨-, i, ho, e⟩
  · rw [e]
    exact h
  · rw [e]
    exact h.congr (congrArg (fun o => o.isLive) ho) (congrArg (fun o => o.flags) ho)

theorem slots_fetchPhase_decode (c : Core) :
    c.fetchPhase.pipeline.slots.decode = c.pipeline.slots.decode := by
  obtain ⟨_, _, _, _, e⟩ := fetchPhase_shape c
  rw [e]

/-- An illegal word behind an exception is the second one. -/
theorem status_dispatch_of_illegal {i : Instruction}
    (hraised : c.pipeline.control.exceptionRaised = true) (hl : i.flags.legal = false) :
    (c.dispatch i).pipeline.status = .exception := by
  rw [dispatch, hl, Bool.not_false, if_pos rfl, raise_again _ hraised]

/-- The second half of a cycle behind an exception puts a legal instruction into decode, if any, or
ends the run. -/
theorem vetted_issueHalf (hraised : c.pipeline.control.exceptionRaised = true)
    (hslot : c.pipeline.slots.fetch.isFetched = true ∨ c.pipeline.slots.fetch = .idle)
    (h : c.pipeline.slots.decode.Vetted)
    (hrun : c.issueHalf.pipeline.status.isTerminal = false) : c.issueHalf.Vetted := by
  have executed : c.executePhase.pipeline.slots.execute.Vetted :=
    h.of_outline ((outline_executed _).trans
      ((outline_forward _ _ _).trans (outline_forward _ _ _)))
  refine ⟨?_, ?_⟩
  · cases c.course hslot with
    | held k _ e =>
      obtain ⟨_, -, -, es⟩ := holdPhase_shape c k
      rw [e]
      refine vetted_resolvePhase (c := c.holdPhase k) ?_
      rw [es]
      exact h.of_outline (outline_forward _ _ _)
    | awaiting _ _ _ e =>
      rw [e]
      exact .of_not_live rfl
    | turning target _ _ e =>
      rw [e, slots_fetchPhase_decode]
      exact .of_not_live (discard_not_live _)
    | vacant _ _ _ _ e =>
      rw [e, slots_fetchPhase_decode]
      exact .of_not_live rfl
    | taking _ _ _ _ ed e =>
      rw [e, slots_fetchPhase_decode]
      refine vetted_resolvePhase ?_
      rw [ed]
      intro _
      refine eq_true_of_ne_false fun hl => ?_
      have honward := (onward_resolvePhase c.executePhase.decodePhase).trans (onward_fetchPhase _)
      have hended : c.executePhase.decodePhase.pipeline.status = .exception := by
        rw [ed]
        exact status_dispatch_of_illegal hraised hl
      rw [e] at hrun
      exact Bool.eq_false_iff.mp hrun (honward.terminal (by rw [hended]; rfl))
  · rw [issueHalf_execute]
    split
    · exact .of_not_live rfl
    · exact executed

/-- The first half of a cycle behind an exception leaves decode alone and completes the access of an
executed instruction, or ends the run. -/
theorem unfailing_retireHalf (hraised : c.pipeline.control.exceptionRaised = true)
    (h : c.pipeline.slots.execute.Vetted)
    (hrun : c.retireHalf.pipeline.status.isTerminal = false) :
    c.retireHalf = c.writebackPhase.accessPhase ∧
      (c.retireHalf.pipeline.slots.memory.isLive = true →
        c.retireHalf.pipeline.slots.memory.stepEnd ≠ .failed) := by
  rcases c.retireHalf_cases with ⟨hf, e⟩ | ⟨-, -, e⟩ | ⟨-, hx, -⟩
  · refine ⟨e, fun hl => ?_⟩
    rw [e] at hl ⊢
    rw [Sequential.stepEnd_ne_failed_iff, h.of_outline c.outline_accessPhase hl]
    exact hf
  · rw [e, raise_again c.writebackPhase.accessPhase hraised] at hrun
    cases hrun
  · rw [flushes, hraised] at hx
    simp at hx

/-- Behind an exception, a cycle that does not end the run leaves nothing in flight that has
failed. -/
theorem Vetted.movingCycle (h : c.Vetted) (hraised : c.pipeline.control.exceptionRaised = true)
    (hslot : c.pipeline.slots.fetch.isFetched = true ∨ c.pipeline.slots.fetch = .idle)
    (hrun : c.movingCycle.pipeline.status.isTerminal = false) : c.movingCycle.Unfailing := by
  have hhalf : c.retireHalf.pipeline.status.isTerminal = false :=
    Bool.eq_false_iff.mpr fun ht =>
      Bool.eq_false_iff.mp hrun ((onward_issueHalf c.retireHalf).terminal ht)
  obtain ⟨e, hmemory⟩ := unfailing_retireHalf hraised h.execute hhalf
  have hvetted : c.retireHalf.issueHalf.Vetted := by
    refine vetted_issueHalf ?_ (by rw [fetch_retireHalf]; exact hslot) ?_ hrun
    · rw [e]
      exact hraised
    · rw [e]
      exact h.decode
  refine ⟨hvetted, ?_⟩
  rw [show c.movingCycle = c.retireHalf.issueHalf from rfl, (issueHalf_slots _).2]
  exact hmemory

/-- A frozen cycle leaves the instructions in flight where they are. -/
theorem Unfailing.frozenCycle (h : c.Unfailing) : c.frozenCycle.Unfailing := { h with }

end Failing

end Core

/-- A pipeline that has retired `k` steps of a program behind an exception. -/
inductive Core.Handles (handler : Machine) (k : Nat) (c : Core) : Prop
  | intro (s : Sequential) (consistent : Consistent s c) (follows : s.Follows handler k)
      (raised : c.pipeline.control.exceptionRaised = true)
      (unfailing : c.pipeline.status.isTerminal = false → c.Unfailing)

section Handling

variable {c : Core} {s : Sequential} {handler : Machine} {k : Nat}

/-- What is about to retire behind an exception is the next step of the handler. -/
theorem Core.Unfailing.retires (hfree : c.Unfailing) (hc : Consistent s c)
    (hfollows : s.Follows handler k) (hsafe : handler.FetchSafe)
    (hl : c.pipeline.slots.memory.isLive = true) :
    handler.Reaches k ∧
      c.pipeline.slots.memory = { handler.executed k with id := c.pipeline.slots.memory.id } ∧
      (c.memoryPoint s).Follows handler (k + 1) := by
  obtain ⟨hacc, hrec⟩ := hc.completed hl
  have hraw := hfollows.word hsafe hacc.running hacc.sees
  have hpoint := Sequential.pass_of_live s hl
  rw [hraw] at hrec hpoint
  have hend : (handler.executed k).stepEnd ≠ .failed := by
    rw [← hfollows.stepEnd_record c.pipeline.slots.memory.id, ← hrec]
    exact hfree.memory hl
  refine ⟨hfollows.running hacc.running, hrec.trans (hfollows.record_eq _), ?_⟩
  rw [Core.memoryPoint, hpoint]
  exact hfollows.next hacc.running _ hend

/-- A cycle that moves behind an exception leads on in the handler, or a second exception ends the
run. -/
theorem Consistent.handles_tick (hc : Consistent s c) (hs : c.pipeline.status = .success)
    (hm : c.pipeline.control.memStall = 0) (hraised : c.pipeline.control.exceptionRaised = true)
    (hvetted : c.Vetted) (hfollows : (c.memoryPoint s).Follows handler k) :
    c.tick.EndedTwice ∨ c.tick.Handles handler k := by
  rcases hc.tick_moving hs hm with hc' | ⟨-, hend⟩
  · refine .inr (.intro _ hc' hfollows ?_ ?_)
    · have hle := Core.exceptions_le_tick c
      rw [hc.exceptions, hc'.exceptions, hraised] at hle
      refine eq_true_of_ne_false fun hn => ?_
      rw [hn] at hle
      exact absurd hle (by decide)
    · intro hrun
      rw [Core.tick_of_moving hs hm] at hrun ⊢
      have hvetted' : c.countCycle.Vetted := { hvetted with }
      exact hvetted'.movingCycle hraised hc.frontEnd.slot hrun
  · exact .inl hend

/-- One cycle of the handler. -/
theorem Core.Handles.tick (h : c.Handles handler k) (hsafe : handler.FetchSafe) :
    (c.tick.EndedTwice ∨ c.tick.Handles handler (k + c.retiring.length)) ∧
      ∀ i r, c.retiring[i]? = some r →
        handler.Reaches (k + i) ∧ r = { handler.executed (k + i) with id := r.id } := by
  cases ht : c.pipeline.status.isTerminal with
  | true =>
    rw [tick_of_terminal ht, retiring_of_terminal ht]
    exact ⟨.inr h, by simp⟩
  | false =>
    obtain ⟨s, hc, hfollows, hraised, hfree⟩ := h
    have hs := RunStatus.eq_success ht
    rcases Nat.eq_zero_or_pos c.pipeline.control.memStall with hm | hm
    · rw [retiring_of_moving hs hm]
      cases hl : c.pipeline.slots.memory.isLive with
      | false =>
        rw [show [c.pipeline.slots.memory].filter (·.isLive) = [] by simp [hl]]
        refine ⟨hc.handles_tick hs hm hraised (hfree ht).toVetted ?_, by simp⟩
        rw [memoryPoint, Sequential.pass_of_not_live _ hl]
        exact hfollows
      | true =>
        obtain ⟨hreach, hrec, hnext⟩ := (hfree ht).retires hc hfollows hsafe hl
        rw [show [c.pipeline.slots.memory].filter (·.isLive) = [c.pipeline.slots.memory] by
          simp [hl]]
        refine ⟨hc.handles_tick hs hm hraised (hfree ht).toVetted hnext, ?_⟩
        intro i r hr
        obtain ⟨hi, rfl⟩ := List.getElem?_eq_some_iff.mp hr
        obtain rfl : i = 0 := Nat.lt_one_iff.mp hi
        exact ⟨hreach, hrec⟩
    · rw [retiring_of_frozen hs hm]
      refine ⟨.inr (.intro s (hc.tick_frozen hs hm) hfollows ?_ ?_), by simp⟩
      · rw [tick_of_frozen hs hm]
        exact hraised
      · intro _
        rw [tick_of_frozen hs hm]
        have hcount : c.countCycle.Unfailing := { hfree ht with }
        exact hcount.frozenCycle

/-- A run of the handler: what retires are its steps one by one. -/
theorem Core.Handles.run (h : c.Handles handler k) (hsafe : handler.FetchSafe) (n : Nat) :
    ((runTicks n c).EndedTwice ∨ (runTicks n c).Handles handler (k + (retired n c).length)) ∧
      ∀ i r, (retired n c)[i]? = some r →
        handler.Reaches (k + i) ∧ r = { handler.executed (k + i) with id := r.id } := by
  induction n generalizing c k with
  | zero => exact ⟨.inr h, by simp [retired]⟩
  | succ n ih =>
    obtain ⟨hnext, hrec⟩ := h.tick hsafe
    rw [runTicks_succ, retired]
    rcases hnext with hend | hnext
    · have ht : c.tick.pipeline.status.isTerminal = true := by rw [hend.status]; rfl
      rw [runTicks_of_terminal ht, retired_of_terminal ht, List.append_nil]
      exact ⟨.inl hend, hrec⟩
    · obtain ⟨hrun, hrecs⟩ := ih hnext
      refine ⟨?_, ?_⟩
      · rw [List.length_append, ← Nat.add_assoc]
        exact hrun
      · intro i r hr
        rcases Nat.lt_or_ge i c.retiring.length with hi | hi
        · rw [List.getElem?_append_left hi] at hr
          exact hrec i r hr
        · rw [List.getElem?_append_right hi] at hr
          have := hrecs _ r hr
          rwa [Nat.add_assoc, Nat.add_sub_of_le hi] at this

/-- The handler comes to each of its steps, unless a second exception ends the run before. -/
theorem Core.Handles.exists_retired (h : c.Handles handler 0) (hsafe : handler.FetchSafe) {i : Nat}
    (hi : handler.Reaches i) :
    ∃ n, i < (retired n c).length ∨ 2 ≤ (runTicks n c).machine.counters.exceptions := by
  have ⟨s, hc, _, _, _⟩ := h
  obtain ⟨n, hn⟩ := hc.retires_or_ends (i + 1)
  refine ⟨n, ?_⟩
  rcases (h.run hsafe n).1 with hend | ⟨t, ht, hfollows, -, -⟩
  · exact .inr hend.exceptions
  · rcases hn with hterm | hlen
    · -- the run has halted, behind the last step of the handler
      obtain ⟨k, hk, -, hhalt⟩ := hfollows.stopped (ht.halted_of_terminal hterm)
      refine .inl (Nat.lt_of_not_le fun hle => ?_)
      have := hi k (by omega)
      rw [hhalt] at this
      cases this
    · exact .inl hlen

end Handling

section Fault

variable {s : Sequential} {c : Core} {m : Machine} {k : Nat}

/-- A cycle that leaves a failed access in the memory slot and is the first to raise an exception
flushes the pipeline. -/
theorem Consistent.flushed_tick (hc : Consistent s c) (hs : c.pipeline.status = .success)
    (hm : c.pipeline.control.memStall = 0) (hraised : c.pipeline.control.exceptionRaised = false)
    (hf : c.tick.pipeline.slots.memory.memFault = true) :
    c.tick.Flushed ∧ c.tick.pipeline.slots.memory.isLive = true := by
  have hslot : c.tick.pipeline.slots.memory =
      c.countCycle.writebackPhase.accessPhase.pipeline.slots.memory := by
    rw [Core.tick_of_moving hs hm, Core.movingCycle, (issueHalf_slots _).2, Core.slots_retireHalf]
  rw [hslot] at hf
  have hx : c.countCycle.flushes = true :=
    Bool.and_eq_true_iff.mpr ⟨hf, congrArg (!·) hraised⟩
  refine ⟨?_, ?_⟩
  · rw [Core.tick_of_moving hs hm]
    exact Core.flushed_movingCycle hx hm hc.executeClean hc.frontEnd.slot
  · rw [(tick_slots hs hm).2.1]
    exact hc.countCycle.live_of_fault hf

/-- The state of a pipeline in which the first exception has just been raised by a failing
access. -/
structure Faulted (m : Machine) (s : Sequential) (c : Core) : Prop where
  consistent : Consistent s c
  inStep : s.InStep m
  running : s.halted = false
  fails : m.FailsAt s.retired
  slot : c.pipeline.slots.memory = m.executed s.retired
  live : c.pipeline.slots.memory.isLive = true
  status : c.pipeline.status = .success
  raised : c.pipeline.control.exceptionRaised = true
  flushed : c.Flushed

theorem Machine.Fresh.faulted (h : m.Fresh) (hsafe : m.FetchSafe) (hk : m.core.RaisesAt k)
    (hf : (Core.runTicks (k + 1) m.core).pipeline.slots.memory.memFault = true) :
    ∃ s, Faulted m s (Core.runTicks (k + 1) m.core) := by
  obtain ⟨s, hr, -, hin⟩ := h.reached_of_no_exception hsafe hk.before
  have hraised := hk.raised
  rw [Core.runTicks_one_more] at hraised hf ⊢
  obtain ⟨hs, hm, hc, hx⟩ := hr.consistent.tick_raises hk.before hraised
  obtain ⟨hflushed, hl⟩ :=
    hr.consistent.flushed_tick hs hm (hr.consistent.untrapped hk.before).1 hf
  obtain ⟨hacc, hrec⟩ := hc.completed hl
  have hslot := hrec.trans (hin.record_eq hsafe h.counters.2 hacc)
  have hend : (m.executed ((Core.runTicks k m.core).memoryPoint s).retired).stepEnd = .failed := by
    rw [← hslot]
    exact Sequential.stepEnd_failed (by rw [hf, Bool.or_true])
  have hsuccess := hin.status_eq hc
  rw [hacc.running] at hsuccess
  exact ⟨_, hc, hin, hacc.running, ⟨hin.follows.running hacc.running, hend⟩, hslot, hl, hsuccess,
    hx, hflushed⟩

namespace Faulted

/-- The machine is the one that the failing instruction found. -/
theorem machine_eq (h : Faulted m s c) :
    c.machine.regs = (m.after s.retired).regs ∧ c.machine.memory = (m.after s.retired).memory := by
  refine ⟨h.consistent.regs.trans h.inStep.follows.regs, ?_⟩
  rw [h.consistent.memory, Core.memoryPoint, Sequential.pass_of_live _ h.live,
    ← (h.consistent.completed h.live).record, h.slot, Sequential.next_of_failed _ h.fails.failed]
  exact h.inStep.follows.memory

/-- In the next cycle the failing instruction retires, and the handler begins. -/
theorem tick (h : Faulted m s c) :
    c.retiring = [m.executed s.retired] ∧
      (c.tick.EndedTwice ∨ c.tick.Handles (m.handler s.retired) 0) := by
  have hm := h.flushed.memStall
  refine ⟨?_, ?_⟩
  · rw [Core.retiring_of_moving h.status hm, ← h.slot]
    simp [h.live]
  · refine h.consistent.handles_tick h.status hm h.raised ?_ ?_
    · exact ⟨.of_not_live h.flushed.decode, .of_not_live h.flushed.execute⟩
    · rw [Core.memoryPoint, Sequential.pass_of_live _ h.live,
        ← (h.consistent.completed h.live).record, h.slot]
      exact h.inStep.follows_handler h.running h.fails.failed

end Faulted

end Fault

/-- A memory fault is precise, whatever is in flight behind it. In the cycle in which a failing
access raises the first exception, it is that of the instruction at which the functional run stops;
registers and memory are what this instruction found, and the pipeline is flushed. The instruction
itself retires in the next cycle. What retires behind it, until a further exception ends the run,
are the functional steps of the exception handler in this state, but for their numbers. -/
theorem memory_fault_precise {m : Machine} (h : m.Fresh) (hsafe : m.FetchSafe) {k : Nat}
    (hk : m.core.RaisesAt k)
    (hf : (Core.runTicks (k + 1) m.core).pipeline.slots.memory.memFault = true) :
    ∃ n, m.FailsAt n ∧
      (Core.runTicks (k + 1) m.core).pipeline.slots.memory = m.executed n ∧
      (Core.runTicks (k + 1) m.core).machine.regs = (m.after n).regs ∧
      (Core.runTicks (k + 1) m.core).machine.memory = (m.after n).memory ∧
      (Core.runTicks (k + 1) m.core).Flushed ∧
      Core.retired (k + 2) m.core = Core.retired (k + 1) m.core ++ [m.executed n] ∧
      ((m.handler n).FetchSafe →
        (∀ j i r, (Core.retired j (Core.runTicks (k + 2) m.core))[i]? = some r →
          (m.handler n).Reaches i ∧ r = { (m.handler n).executed i with id := r.id }) ∧
        (∀ i, (m.handler n).Reaches i →
          ∃ j, i < (Core.retired j (Core.runTicks (k + 2) m.core)).length ∨
            2 ≤ (Core.runTicks (k + 2 + j) m.core).machine.counters.exceptions)) := by
  obtain ⟨s, hs⟩ := h.faulted hsafe hk hf
  obtain ⟨hregs, hmemory⟩ := hs.machine_eq
  obtain ⟨hretiring, hnext⟩ := hs.tick
  rw [← Core.runTicks_one_more] at hnext
  refine ⟨s.retired, hs.fails, hs.slot, hregs, hmemory, hs.flushed, ?_, ?_⟩
  · rw [Core.retired_one_more, hretiring]
  · intro hhandler
    simp only [Core.runTicks_add (k + 2)]
    rcases hnext with hend | hhandles
    · have ht : (Core.runTicks (k + 2) m.core).pipeline.status.isTerminal = true := by
        rw [hend.status]
        rfl
      refine ⟨?_, fun i _ => ⟨0, .inr hend.exceptions⟩⟩
      intro j i r hr
      rw [Core.retired_of_terminal ht] at hr
      simp at hr
    · refine ⟨?_, fun i hi => hhandles.exists_retired hhandler hi⟩
      intro j i r hr
      have := (hhandles.run hhandler j).2 i r hr
      rwa [Nat.zero_add] at this

/-- The load fails in the fourth cycle, and the handler, which sets register 5 and halts, is run. -/
theorem memory_fault_precise_faulting :
    (Machine.faulting 0x00100293).core.RaisesAt 3 ∧
    (Core.runTicks 4 (Machine.faulting 0x00100293).core).pipeline.slots.memory.memFault = true ∧
    (Core.runTicks 4 (Machine.faulting 0x00100293).core).Flushed ∧
    ∃ j, 1 < (Core.retired j (Core.runTicks 5 (Machine.faulting 0x00100293).core)).length ∨
      2 ≤
        (Core.runTicks (5 + j) (Machine.faulting 0x00100293).core).machine.counters.exceptions := by
  have hfresh : (Machine.faulting 0x00100293).Fresh := Machine.fresh_ofConfig rfl _ _
  have hraises : (Machine.faulting 0x00100293).core.RaisesAt 3 :=
    ⟨by decide +kernel, by decide +kernel⟩
  have hfault :
      (Core.runTicks 4 (Machine.faulting 0x00100293).core).pipeline.slots.memory.memFault =
        true := by
    decide +kernel
  obtain ⟨n, hn, -, -, -, hflushed, -, hhandler⟩ :=
    memory_fault_precise hfresh fetchSafe_faulting_legal hraises hfault
  obtain rfl : n = 0 := Nat.eq_zero_of_not_pos fun hpos =>
    absurd (hn.reaches 0 hpos) (by decide +kernel)
  have hsafe : ((Machine.faulting 0x00100293).handler 0).FetchSafe :=
    Machine.fetchSafe_of_ends (n := 1) (by decide +kernel) (by decide +kernel)
  exact ⟨hraises, hfault, hflushed, (hhandler hsafe).2 1 (by decide +kernel)⟩

end FiveStage
