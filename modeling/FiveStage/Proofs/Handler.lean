import FiveStage.Proofs.Exceptions

/-! # The exception handler

Behind its first exception the pipeline runs the exception handler, from the registers and the
memory that the failing instruction found. If the handler halts, the run ends with a single
exception and with what the handler leaves, unless the failing instruction was overtaken
(`exceptions_in_program_order`). -/

namespace FiveStage

open Instruction

/-- The functional run stops at its instruction behind `n` others, and the exception handler, which
then comes to run, meets no exception. -/
structure Machine.Recovers (m : Machine) (n : Nat) : Prop where
  numbered : m.nextId = 0
  safe : m.FetchSafe
  fails : m.FailsAt n
  handlerSafe : (m.handler n).FetchSafe
  handlerFree : (m.handler n).FaultFree

namespace Sequential

/-- Behind a failing instruction a state is where the exception handler begins. -/
theorem InStep.follows_handler {s : Sequential} {m : Machine} (h : s.InStep m)
    (hrun : s.halted = false) (hf : (m.executed s.retired).stepEnd = .failed) :
    (s.next (m.executed s.retired)).Follows (m.handler s.retired) 0 := by
  have hm := h.follows.memory
  rw [next_of_failed _ hf]
  exact {
    regs := h.follows.regs
    pc := rfl
    memory := hm
    recent := hm
    older := hm
    running := fun _ _ hk => absurd hk (Nat.not_lt_zero _)
    stopped := fun hh => absurd (hrun.symm.trans hh) (by decide) }

/-- A state on the way to the failing instruction and on through the exception handler. -/
inductive Guided (m : Machine) (n : Nat) (s : Sequential) : Prop
  | before (inStep : s.InStep m)
  | behind (trapped : s.trapped = true) (k : Nat) (retired : s.retired = n + 1 + k)
      (follows : s.Follows (m.handler n) k)

namespace Guided

variable {s : Sequential} {m : Machine} {n : Nat} {i : Instruction}

/-- Behind the failing instruction the exception handler begins. -/
theorem begins (h : s.InStep m) (hrun : s.halted = false) (hret : s.retired = n)
    (hf : (m.executed n).stepEnd = .failed) : (s.next (m.executed n)).Guided m n := by
  subst hret
  refine .behind ?_ 0 (by rw [retired_next]) (h.follows_handler hrun hf)
  rw [next_of_failed _ hf]

/-- In the exception handler no instruction fails. -/
theorem word (hg : m.Recovers n) {k : Nat} (h : s.Follows (m.handler n) k)
    (hrun : s.halted = false) {w : InstWord} (hw : s.Sees s.pc w) :
    w = ((m.handler n).executed k).raw ∧ ((m.handler n).executed k).stepEnd ≠ .failed :=
  ⟨h.word hg.handlerSafe hrun hw, hg.handlerFree.not_failed (h.running hrun)⟩

theorem next (hg : m.Recovers n) (h : s.Guided m n) (hacc : s.Accepts i) :
    (s.next (s.record i.raw i.id)).Guided m n := by
  cases h with
  | before hin =>
    rw [hin.record_eq hg.safe hg.numbered hacc]
    by_cases hf : (m.executed s.retired).stepEnd = .failed
    · have hret := hin.retired_eq_of_failed hg.fails hf
      rw [hret]
      exact begins hin hacc.running hret hg.fails.failed
    · exact .before (hin.next hacc.running hf)
  | behind ht k hret hfollows =>
    obtain ⟨hraw, hf⟩ := word hg hfollows hacc.running hacc.sees
    rw [hraw]
    refine .behind ?_ (k + 1) ?_ (hfollows.next hacc.running i.id hf)
    · rw [trapped_next, ht]; rfl
    · rw [retired_next, hret, Nat.add_assoc]

theorem pass (hg : m.Recovers n) (h : s.Guided m n) (hacc : i.isLive = true → s.Accepts i) :
    (s.pass i).Guided m n := by
  cases hl : i.isLive with
  | false => rw [pass_of_not_live _ hl]; exact h
  | true => rw [pass_of_live _ hl]; exact h.next hg (hacc hl)

/-- An access that fails is the one at which the functional run stops. -/
theorem inStep_of_memFault (hg : m.Recovers n) (h : s.Guided m n) (hacc : s.Accepts i)
    (hf : (s.record i.raw i.id).memFault = true) : s.InStep m ∧ i.raw.flags.legal = true := by
  cases h with
  | before hin =>
    obtain ⟨-, hrec⟩ := hin.eq_of_failed hg.numbered hg.safe hg.fails hacc
      (stepEnd_failed (by simp [hf]))
    refine ⟨hin, ?_⟩
    have := Machine.legal_of_memFault (m := m) (n := n) (by rw [← hrec]; exact hf)
    rwa [← hrec, record_flags] at this
  | behind _ k _ hfollows =>
    obtain ⟨hraw, hne⟩ := word hg hfollows hacc.running hacc.sees
    rw [← hfollows.stepEnd_record i.id, ← hraw] at hne
    exact absurd (stepEnd_failed (by simp [hf])) hne

end Guided

end Sequential

/-- Behind an exception, the executed instruction is not one that fails. -/
def Spared (s : Sequential) (c : Core) : Prop :=
  c.pipeline.control.exceptionRaised = true → c.pipeline.slots.execute.isLive = true →
    ((c.memoryPoint s).record c.pipeline.slots.execute.raw
      c.pipeline.slots.execute.id).memFault = false

section Spared

variable {s : Sequential} {c : Core} {m : Machine} {n k : Nat}

theorem Spared.executePoint (h : Spared s c)
    (hraised : c.pipeline.control.exceptionRaised = true) :
    c.executePoint s = (c.memoryPoint s).pass c.pipeline.slots.execute :=
  Sequential.foresee_eq_pass _ (h hraised)

/-- Nothing can raise a second exception on the way through the exception handler. -/
theorem Spared.no_second (h : Spared s c) (hg : m.Recovers n) (hc : Consistent s c)
    (hs : s.Guided m n) : ¬ SecondException s c := by
  intro hx
  cases hx with
  | fault hraised hl hf => rw [h hraised hl] at hf; cases hf
  | illegal hraised hrun w hsees hillegal =>
    have hpoint : (c.memoryPoint s).Guided m n := hs.pass hg fun hl => (hc.completed hl).accepts
    have hexec : (c.executePoint s).Guided m n := by
      rw [h.executePoint hraised]
      exact hpoint.pass hg fun hl => (hc.executed hl).accepts
    have hdec := hc.raised.symm.trans hraised
    have hpass : (c.executePoint s).foresee c.pipeline.slots.decode =
        (c.executePoint s).pass c.pipeline.slots.decode := by
      apply Sequential.foresee_eq_pass
      intro hl
      apply Bool.eq_false_iff.mpr
      intro hf
      obtain ⟨hin, hlegal⟩ := hexec.inStep_of_memFault hg (hc.accepted hl) hf
      rw [Core.decodePoint, Sequential.trapped_foresee, hin.untrapped, hl, hlegal] at hdec
      cases hdec
    have hguided : (c.decodePoint s).Guided m n := by
      rw [Core.decodePoint, hpass]
      exact hexec.pass hg hc.accepted
    cases hguided with
    | before hin => rw [hin.untrapped] at hdec; cases hdec
    | behind _ k _ hfollows =>
      obtain ⟨hraw, hne⟩ := Sequential.Guided.word hg hfollows hrun hsees
      rw [Sequential.stepEnd_ne_failed_iff, Machine.flags_executed, ← hraw, hillegal] at hne
      cases hne

/-- A frozen cycle leaves the executed instruction in its slot. -/
theorem Spared.frozenCycle (h : Spared s c) : Spared s c.frozenCycle := h

/-- Once an exception has been raised, the next executed instruction does not fail either: what
fails is the instruction at which the functional run stops, and an exception is raised only behind
it. -/
theorem Spared.tick_moving (h : Spared s c) (hg : m.Recovers n) (hc : Consistent s c)
    (hs : s.Guided m n) (hstatus : c.pipeline.status = .success)
    (hm : c.pipeline.control.memStall = 0) (hc' : Consistent (c.memoryPoint s) c.tick)
    (hraised : c.pipeline.control.exceptionRaised = true) : Spared (c.memoryPoint s) c.tick := by
  intro _ hl'
  obtain ⟨-, hlive, hraw, hexec⟩ := tick_slots hstatus hm
  obtain ⟨hdl, hdraw, -⟩ := hexec hl'
  have hpoint : (c.memoryPoint s).Guided m n := hs.pass hg fun hl => (hc.completed hl).accepts
  have hahead : c.tick.memoryPoint (c.memoryPoint s) = c.executePoint s := by
    rw [h.executePoint hraised]
    unfold Core.memoryPoint Sequential.pass
    rw [hlive, hraw]
    split
    · exact Sequential.next_record_id _ _ _ _
    · rfl
  have hguided : (c.tick.memoryPoint (c.memoryPoint s)).Guided m n :=
    hpoint.pass hg fun hl => (hc'.completed hl).accepts
  apply Bool.eq_false_iff.mpr
  intro hf
  obtain ⟨hin, hlegal⟩ := hguided.inStep_of_memFault hg (hc'.executed hl').accepts hf
  have hdec := hc.raised.symm.trans hraised
  rw [hahead] at hin
  rw [hdraw] at hlegal
  rw [Core.decodePoint, Sequential.trapped_foresee, hin.untrapped, hdl, hlegal] at hdec
  cases hdec

theorem Reached.guided (hr : Reached (Sequential.start m) m.core k s) (hg : m.Recovers n) :
    s.Guided m n :=
  hr.run.preserves (P := fun s => s.Guided m n) (.before (.start m)) fun _ _ ht hacc =>
    ht.next hg hacc

/-- After any number of cycles, a pipeline in which the failing instruction is not overtaken is
where the functional run and the exception handler lead. -/
theorem Machine.Recovers.reached (hg : m.Recovers n) (h : m.Fresh)
    (hover : ¬ m.core.Overtaken (m.executed n)) (k : Nat) :
    ∃ s, Reached (Sequential.start m) m.core k s ∧ Spared s (Core.runTicks k m.core) := by
  induction k with
  | zero => exact ⟨_, ⟨.nil, h.consistent⟩, nofun⟩
  | succ k ih =>
    obtain ⟨s, hr, hspared⟩ := ih
    cases ht : (Core.runTicks k m.core).pipeline.status.isTerminal with
    | true =>
      refine ⟨s, hr.tick_of_terminal ht, ?_⟩
      rw [Core.runTicks_one_more, Core.tick_of_terminal ht]
      exact hspared
    | false =>
      have hs := RunStatus.eq_success ht
      rcases Nat.eq_zero_or_pos (Core.runTicks k m.core).pipeline.control.memStall with hm | hm
      · have hguided := hr.guided hg
        have hc := (hr.consistent.tick_moving hs hm).resolve_right fun hx =>
          hspared.no_second hg hr.consistent hguided hx.1
        have hr' := hr.tick_of_moving hs hm hc
        refine ⟨_, hr', ?_⟩
        cases hraised : (Core.runTicks k m.core).pipeline.control.exceptionRaised with
        | true =>
          rw [Core.runTicks_one_more]
          exact hspared.tick_moving hg hr.consistent hguided hs hm hc hraised
        | false =>
          -- an executed instruction that fails would be overtaken by what is raised in this cycle
          intro hraised' hl
          refine Bool.eq_false_iff.2 fun hf => hover ⟨k, ⟨?_, ?_⟩, ?_⟩
          · rw [hr.consistent.exceptions, hraised]; rfl
          · rw [hr'.consistent.exceptions, hraised']; simp
          · have hpoint : ((Core.runTicks (k + 1) m.core).memoryPoint _).Guided m n :=
              (hr'.guided hg).pass hg fun hl => (hr'.consistent.completed hl).accepts
            obtain ⟨hin, -⟩ :=
              hpoint.inStep_of_memFault hg (hr'.consistent.executed hl).accepts hf
            exact (hr'.consistent.overtakes hraised' hin hg.numbered hg.safe hg.fails hl hf).1
      · refine ⟨s, hr.tick_of_frozen hs hm, ?_⟩
        rw [Core.runTicks_one_more, Core.tick_of_frozen hs hm]
        exact hspared.frozenCycle

end Spared

/-- If the failing instruction is not overtaken, the run ends with what the exception handler
leaves. -/
theorem Machine.Recovers.ends {m : Machine} {n : Nat} (hg : m.Recovers n) (h : m.Fresh)
    (hover : ¬ m.core.Overtaken (m.executed n)) {i : Nat} (hi : (m.handler n).Reaches i)
    (he : ((m.handler n).executed i).stepEnd = .halted) :
    ∃ k, (Core.runTicks k m.core).pipeline.status = .exception ∧
      (Core.runTicks k m.core).machine.counters.exceptions = 1 ∧
      (Core.runTicks k m.core).machine.regs = ((m.handler n).after (i + 1)).regs ∧
      (Core.runTicks k m.core).machine.memory = ((m.handler n).after (i + 1)).memory := by
  obtain ⟨k, hk⟩ := h.consistent.retires_or_ends (n + 1 + (i + 2))
  obtain ⟨s, hr, -⟩ := hg.reached h hover k
  have hc := hr.consistent
  have hh : s.halted = true := by
    rcases hk with hk | hk
    · exact hc.halted_of_terminal hk
    · rw [hr.length_retired] at hk
      cases hr.guided hg with
      | before hin => have := (hin.le_of_failsAt hg.fails).2; omega
      | behind _ j hret hfollows =>
        cases hh : s.halted with
        | true => rfl
        | false =>
          have := hfollows.running hh i (by omega)
          rw [he] at this
          cases this
  cases hr.guided hg with
  | before hin => rw [(hin.le_of_failsAt hg.fails).1] at hh; cases hh
  | behind ht j _ hfollows =>
    have hj := (hfollows.halted_iff hi he).mp hh
    have hraised : (Core.runTicks k m.core).pipeline.control.exceptionRaised = true := by
      rw [hc.raised, (hc.points_of_halted hh).2, ht]
    refine ⟨k, ?_, ?_, ?_, ?_⟩
    · rw [hc.status, Sequential.status, hh, ht]
      rfl
    · rw [hc.exceptions, hraised]
      rfl
    · rw [hc.regs, hfollows.regs, hj]
    · rw [hc.memory, (hc.points_of_halted hh).1, hfollows.memory, hj]

/-- Exceptions are taken in program order, whatever the caches, as long as the instruction that
fails is not overtaken. If the functional run stops at an instruction that fails, the first
exception of the pipeline is raised for this instruction if and only if it is not overtaken. If the
exception handler, run from what that instruction found, halts, then the pipeline ends with a single
exception and with what the handler leaves, again if and only if the instruction is not overtaken. A
word that is an instruction overtakes nothing. -/
theorem exceptions_in_program_order {m : Machine} (h : m.Fresh) (hsafe : m.FetchSafe) {n : Nat}
    (hn : m.FailsAt n) :
    (m.core.RaisesFirst (m.executed n) ↔ ¬ m.core.Overtaken (m.executed n)) ∧
    (∀ i m', (m.handler n).FetchSafe → (m.handler n).runSteps i = (.halt, m') →
      ((∃ k, (Core.runTicks k m.core).pipeline.status = .exception ∧
        (Core.runTicks k m.core).machine.counters.exceptions = 1 ∧
        (Core.runTicks k m.core).machine.regs = m'.regs ∧
        (Core.runTicks k m.core).machine.memory = m'.memory) ↔
          ¬ m.core.Overtaken (m.executed n))) ∧
    (m.LegalBehind n → ¬ m.core.Overtaken (m.executed n)) := by
  obtain ⟨hfirst, hlegal⟩ := h.raisesFirst_iff hsafe hn
  refine ⟨hfirst, ?_, hlegal⟩
  intro i m' hhandler hrun
  refine ⟨?_, ?_⟩
  · rintro ⟨k, hstatus, hx, -, -⟩ hover
    obtain ⟨j, hj⟩ := h.ends_of_overtaken hsafe hn hover
    have hend : Core.runTicks j m.core = Core.runTicks k m.core :=
      Core.runTicks_eq_of_terminal (by rw [hj.status]; rfl) (by rw [hstatus]; rfl)
    have := hj.exceptions
    rw [hend, hx] at this
    omega
  · intro hover
    obtain ⟨j, hj, hreach, hhalt⟩ := Machine.exists_halted (by rw [hrun])
    have hm' : m' = (m.handler n).after (j + 1) := by
      rw [Machine.runSteps_of_halted hreach hhalt hj] at hrun
      exact (congrArg Prod.snd hrun).symm
    rw [hm']
    exact Machine.Recovers.ends
      ⟨h.counters.2, hsafe, hn, hhandler, Machine.faultFree_of_halted hreach hhalt⟩ h hover
      hreach hhalt

/-- A machine about to load from where there is no memory, sixteen bytes before its exception
handler, with a given word behind the load. Its caches do not make it wait. -/
def Machine.faulting (behind : InstWord) : Machine :=
  .ofConfig
    { startPc := 0x7FF0, instructionCache.missLatency := 0, dataCache.missLatency := 0 }
    (.ofWords 0x7FF0 [0xFF803103, behind, 0, 0, 0x00700293, InstWord.halt, 0, 0]) .zero

theorem fetchSafe_faulting_legal : (Machine.faulting 0x00100293).FetchSafe :=
  Machine.fetchSafe_of_ends (n := 0) (by decide +kernel) nofun

theorem fetchSafe_faulting_illegal : (Machine.faulting 0).FetchSafe :=
  Machine.fetchSafe_of_ends (n := 0) (by decide +kernel) nofun

/-- The load fails with an instruction behind it, and the handler is run. -/
theorem exceptions_in_program_order_faulting :
    (Machine.faulting 0x00100293).core.RaisesFirst ((Machine.faulting 0x00100293).executed 0) ∧
    ∃ k, (Core.runTicks k (Machine.faulting 0x00100293).core).machine.counters.exceptions = 1 ∧
      (Core.runTicks k (Machine.faulting 0x00100293).core).machine.regs.read 5 = 7 := by
  have hfresh : (Machine.faulting 0x00100293).Fresh := Machine.fresh_ofConfig rfl _ _
  have hfails : (Machine.faulting 0x00100293).FailsAt 0 := ⟨nofun, by decide +kernel⟩
  obtain ⟨hfirst, hends, hlegal⟩ :=
    exceptions_in_program_order hfresh fetchSafe_faulting_legal hfails
  have hover := hlegal (by unfold Machine.LegalBehind; decide +kernel)
  have hhandler : ((Machine.faulting 0x00100293).handler 0).FetchSafe :=
    Machine.fetchSafe_of_ends (n := 1) (by decide +kernel) (by decide +kernel)
  obtain ⟨k, -, hx, hregs, -⟩ := (hends 2 _ hhandler (by rfl)).mpr hover
  refine ⟨hfirst.mpr hover, k, hx, ?_⟩
  rw [hregs]
  decide +kernel

/-- Behind the load is no instruction. The handler would halt, and still the first exception is not
that of the load, and the run does not end with a single one. -/
theorem faulting_load_overtaken :
    (Machine.faulting 0).Fresh ∧ (Machine.faulting 0).FetchSafe ∧
    (Machine.faulting 0).FailsAt 0 ∧ ((Machine.faulting 0).handler 0).FetchSafe ∧
    (((Machine.faulting 0).handler 0).runSteps 2).1 = .halt ∧
    ¬ (Machine.faulting 0).core.RaisesFirst ((Machine.faulting 0).executed 0) ∧
    ¬ ∃ k, (Core.runTicks k (Machine.faulting 0).core).pipeline.status = .exception ∧
      (Core.runTicks k (Machine.faulting 0).core).machine.counters.exceptions = 1 := by
  refine ⟨Machine.fresh_ofConfig rfl _ _, fetchSafe_faulting_illegal, ⟨nofun, by decide +kernel⟩,
    Machine.fetchSafe_of_ends (n := 1) (by decide +kernel) (by decide +kernel),
    by decide +kernel, ?_, ?_⟩
  · rintro ⟨k, hk, hraises⟩
    have hfirst : (Machine.faulting 0).core.RaisesAt 2 :=
      ⟨by decide +kernel, by decide +kernel⟩
    rw [hk.unique hfirst] at hraises
    revert hraises
    unfold Core.Raises
    decide +kernel
  · rintro ⟨k, hstatus, hx⟩
    have hend := Core.runTicks_eq_of_terminal (c := (Machine.faulting 0).core) (n := k) (k := 8)
      (by rw [hstatus]; rfl) (by decide +kernel)
    rw [hend] at hx
    revert hx
    decide +kernel

end FiveStage
