import FiveStage.Proofs.PreciseState

/-! # Exceptions in program order

The functional run stops at the first instruction that fails, and the pipeline raises its first
exception for the same instruction (`Machine.Fresh.raisesFirst_iff`), but for one case. An illegal
word is met two stages before a failing access, and nothing keeps one that has been decoded right
behind such an access from raising its exception first (`Core.Overtaken`). The exception of the
access then is a second one, which ends the run (`Machine.Fresh.ends_of_overtaken`). -/

namespace FiveStage

open Instruction

namespace Core

/-- The first exception of a run is raised in the cycle behind `n` others. -/
structure RaisesAt (c : Core) (n : Nat) : Prop where
  before : (runTicks n c).machine.counters.exceptions = 0
  raised : (runTicks (n + 1) c).machine.counters.exceptions ≠ 0

/-- An instruction raises an exception: a failed access from the memory slot, and a word that is no
instruction from the decode slot. -/
def Raises (c : Core) (i : Instruction) : Prop :=
  i.memFault = true ∧ c.pipeline.slots.memory = i ∨
    i.flags.legal = false ∧ c.pipeline.slots.decode = i

/-- The first exception of a run is raised for an instruction. -/
def RaisesFirst (c : Core) (i : Instruction) : Prop :=
  ∃ n, c.RaisesAt n ∧ (runTicks (n + 1) c).Raises i

/-- A word that is no instruction has been decoded right behind an access that is going to fail. -/
structure Overtakes (c : Core) (i : Instruction) : Prop where
  fault : i.memFault = true
  live : c.pipeline.slots.execute.isLive = true
  same : c.pipeline.slots.execute.id = i.id
  decoded : c.pipeline.slots.decode.isLive = true
  illegal : c.pipeline.slots.decode.flags.legal = false

/-- The first exception of a run is raised for a word behind an access that fails. -/
def Overtaken (c : Core) (i : Instruction) : Prop :=
  ∃ n, c.RaisesAt n ∧ (runTicks (n + 1) c).Overtakes i

theorem exceptions_le_runTicks (n : Nat) (c : Core) :
    c.machine.counters.exceptions ≤ (runTicks n c).machine.counters.exceptions := by
  induction n with
  | zero => exact Nat.le_refl _
  | succ n ih => rw [runTicks_one_more]; exact Nat.le_trans ih (exceptions_le_tick _)

theorem exceptions_mono (c : Core) {n k : Nat} (h : n ≤ k) :
    (runTicks n c).machine.counters.exceptions ≤ (runTicks k c).machine.counters.exceptions := by
  obtain ⟨j, rfl⟩ := Nat.exists_eq_add_of_le h
  rw [runTicks_add]
  exact exceptions_le_runTicks _ _

namespace RaisesAt

variable {c : Core} {n k : Nat}

theorem le_of_exceptions (h : c.RaisesAt n)
    (hk : (runTicks k c).machine.counters.exceptions = 0) : k ≤ n := by
  apply Nat.le_of_not_lt
  intro hlt
  have := c.exceptions_mono (Nat.succ_le_of_lt hlt)
  rw [hk] at this
  exact h.raised (Nat.le_zero.mp this)

theorem unique (h : c.RaisesAt n) (h' : c.RaisesAt k) : n = k :=
  Nat.le_antisymm (h'.le_of_exceptions h.before) (h.le_of_exceptions h'.before)

end RaisesAt

/-- A run that raises an exception raises a first one. -/
theorem exists_raisesAt {c : Core} (h₀ : c.machine.counters.exceptions = 0) {n : Nat}
    (h : (runTicks n c).machine.counters.exceptions ≠ 0) : ∃ k, c.RaisesAt k := by
  induction n with
  | zero => exact absurd h₀ h
  | succ n ih =>
    by_cases hn : (runTicks n c).machine.counters.exceptions = 0
    · exact ⟨n, hn, h⟩
    · exact ih hn

/-- The run comes to only one end. -/
theorem runTicks_eq_of_terminal {c : Core} {n k : Nat}
    (hn : (runTicks n c).pipeline.status.isTerminal = true)
    (hk : (runTicks k c).pipeline.status.isTerminal = true) : runTicks n c = runTicks k c := by
  have later : ∀ i j, i ≤ j → (runTicks i c).pipeline.status.isTerminal = true →
      runTicks j c = runTicks i c := by
    intro i j hij hi
    obtain ⟨d, rfl⟩ := Nat.exists_eq_add_of_le hij
    rw [runTicks_add, runTicks_of_terminal hi]
  rcases Nat.le_total n k with h | h
  · exact (later n k h hn).symm
  · exact later k n h hk

end Core

namespace Machine

/-- The machine about to run the exception handler, with the registers and the memory that the step
behind `n` others finds. -/
def handler (m : Machine) (n : Nat) : Machine := { m.after n with pc := exceptionHandler }

/-- The functional run stops at its instruction behind `n` others, which fails. -/
structure FailsAt (m : Machine) (n : Nat) : Prop where
  reaches : m.Reaches n
  failed : (m.executed n).stepEnd = .failed

/-- The word behind an instruction in memory is an instruction, as the memory stands when it is run
and as it stood one instruction before. -/
def LegalBehind (m : Machine) (n : Nat) : Prop :=
  ∀ k, k < 2 → ((m.after (n - k)).memory.instructionAt ((m.executed n).pc + 4)).flags.legal = true

/-- An instruction whose access fails is one that accesses memory. -/
theorem access_of_memFault {m : Machine} {n : Nat} (h : (m.executed n).memFault = true) :
    ((m.executed n).raw.flags.readsMem || (m.executed n).raw.flags.writesMem) = true := by
  rw [raw_executed]
  rw [executed, step_fst] at h
  have := accesses_of_memFault (prepared_memFault _ _ _ _) h
  rwa [prepared_flags] at this

theorem legal_of_memFault {m : Machine} {n : Nat} (h : (m.executed n).memFault = true) :
    (m.executed n).flags.legal = true := by
  rw [flags_executed]
  exact (InstWord.legal_of_access (access_of_memFault h)).1

end Machine

namespace Sequential

variable {s : Sequential} {m : Machine} {n : Nat} {i : Instruction}

namespace InStep

/-- Before the failing instruction the run goes on. -/
theorem le_of_failsAt (h : s.InStep m) (hn : m.FailsAt n) :
    s.halted = false ∧ s.retired ≤ n := by
  have hle : ∀ k, m.Reaches k → k ≤ n := by
    intro k hk
    apply Nat.le_of_not_lt
    intro hlt
    have := hk n hlt
    rw [hn.failed] at this
    cases this
  cases hh : s.halted with
  | false => exact ⟨rfl, hle _ (h.follows.running hh)⟩
  | true =>
    obtain ⟨k, -, hk, hend⟩ := h.follows.stopped hh
    rcases Nat.lt_or_eq_of_le (hle k hk) with hlt | rfl
    · have := hn.reaches k hlt
      rw [hend] at this
      cases this
    · rw [hn.failed] at hend
      cases hend

theorem retired_eq_of_failed (h : s.InStep m) (hn : m.FailsAt n)
    (hf : (m.executed s.retired).stepEnd = .failed) : s.retired = n := by
  rcases Nat.lt_or_eq_of_le (h.le_of_failsAt hn).2 with hlt | heq
  · have := hn.reaches _ hlt
    rw [hf] at this
    cases this
  · exact heq

/-- An instruction that fails before any exception is the one at which the functional run stops. -/
theorem eq_of_failed (h : s.InStep m) (hid : m.nextId = 0) (hsafe : m.FetchSafe)
    (hn : m.FailsAt n) (hacc : s.Accepts i) (hf : (s.record i.raw i.id).stepEnd = .failed) :
    s.retired = n ∧ s.record i.raw i.id = m.executed n := by
  have hrec := h.record_eq hsafe hid hacc
  rw [hrec] at hf
  have hret := h.retired_eq_of_failed hn hf
  exact ⟨hret, hret ▸ hrec⟩

end InStep

end Sequential

section FirstException

variable {s : Sequential} {c : Core} {m : Machine} {n : Nat}

/-- A word that is no instruction raises its exception in decode. -/
theorem BackEnd.raises_decode (h : BackEnd s c)
    (hraised : c.pipeline.control.exceptionRaised = true)
    (hin : (c.executePoint s).InStep m) (hid : m.nextId = 0) (hsafe : m.FetchSafe)
    (hn : m.FailsAt n) : c.Raises (m.executed n) := by
  have hdec := h.raised
  rw [hraised, Core.decodePoint, Sequential.trapped_foresee, hin.untrapped, Bool.false_or] at hdec
  obtain ⟨hl, hlegal⟩ := Bool.and_eq_true_iff.mp hdec.symm
  rw [Bool.not_eq_true'] at hlegal
  have hd := h.decoded hl
  obtain ⟨-, hrec⟩ := hin.eq_of_failed hid hsafe hn (h.accepted hl)
    (Sequential.stepEnd_failed (by simp [hlegal]))
  have hflags := hd.flags_eq
  have hpending : c.pipeline.control.controlPending = false := by
    apply Bool.eq_false_iff.mpr
    intro hp
    have := hd.waits hp
    rw [needsOperands, hflags, hlegal] at this
    cases this
  refine .inr ⟨by rw [← hrec]; simpa using hlegal, ?_⟩
  rw [← hrec, Sequential.record, accessed_prepared_of_inert _ _ _ _ _ (.inl hlegal)]
  have hnext : c.pipeline.slots.decode.nextPc = (c.executePoint s).pc + 4 := by
    rw [hd.nextPc, hpending]
    have hcontrol : c.pipeline.slots.decode.isControl = false := by
      rw [isControl, hflags, hlegal]; rfl
    rw [if_neg (by simp), successor_of_not_control hcontrol, fallThrough_eq, hd.pc_eq]
  conv => lhs; rw [hd.form]
  rw [issued_of_inert _ _ _ (.inl hlegal), hnext]
  rfl

/-- An access that fails raises its exception from the memory slot. -/
theorem BackEnd.raises_memory (h : BackEnd s c) (hin : s.InStep m) (hid : m.nextId = 0)
    (hsafe : m.FetchSafe) (hn : m.FailsAt n)
    (hlegal : c.pipeline.slots.memory.isLive = true →
      c.pipeline.slots.memory.raw.flags.legal = true)
    (ht : (c.memoryPoint s).trapped = true) : c.Raises (m.executed n) := by
  have hml : c.pipeline.slots.memory.isLive = true := by
    cases hl : c.pipeline.slots.memory.isLive with
    | true => rfl
    | false =>
      rw [Core.memoryPoint, Sequential.pass_of_not_live _ hl, hin.untrapped] at ht
      cases ht
  obtain ⟨hacc, hrec⟩ := h.completed hml
  have hflags : c.pipeline.slots.memory.flags = c.pipeline.slots.memory.raw.flags := by
    rw [hrec]; simp
  have hfault : c.pipeline.slots.memory.memFault = true := by
    rw [Core.memoryPoint, Sequential.pass_of_live _ hml, ← hrec, Sequential.trapped_next,
      hin.untrapped, hflags, hlegal hml] at ht
    exact ht
  obtain ⟨-, hx⟩ := hin.eq_of_failed hid hsafe hn hacc
    (Sequential.stepEnd_failed (by rw [← hrec, hfault, Bool.or_true]))
  rw [← hrec] at hx
  exact .inl ⟨hx ▸ hfault, hx⟩

/-- A failing access that has not failed yet when an exception has been raised has been overtaken by
the word behind it. -/
theorem BackEnd.overtakes (h : BackEnd s c) (hraised : c.pipeline.control.exceptionRaised = true)
    (hin : (c.memoryPoint s).InStep m) (hid : m.nextId = 0) (hsafe : m.FetchSafe)
    (hn : m.FailsAt n) (hl : c.pipeline.slots.execute.isLive = true)
    (hfault : ((c.memoryPoint s).record c.pipeline.slots.execute.raw
      c.pipeline.slots.execute.id).memFault = true) :
    c.Overtakes (m.executed n) ∧ ¬ m.LegalBehind n := by
  obtain ⟨hret, hrec⟩ := hin.eq_of_failed hid hsafe hn (h.executed hl).accepts
    (Sequential.stepEnd_failed (by simp [hfault]))
  have hx : (m.executed n).memFault = true := by rw [← hrec]; exact hfault
  have hraw : c.pipeline.slots.execute.raw = (m.executed n).raw := by rw [← hrec]; simp
  have haccess := Machine.access_of_memFault hx
  rw [← hraw] at haccess
  obtain ⟨hlegal, hhalt⟩ := InstWord.legal_of_access haccess
  have huntrapped : (c.executePoint s).trapped = false := by
    rw [Core.executePoint, Sequential.trapped_foresee, hin.untrapped, hlegal, hl]
    rfl
  have hdec := h.raised
  rw [hraised, Core.decodePoint, Sequential.trapped_foresee, huntrapped, Bool.false_or] at hdec
  obtain ⟨hdl, hdlegal⟩ := Bool.and_eq_true_iff.mp hdec.symm
  rw [Bool.not_eq_true'] at hdlegal
  refine ⟨⟨hx, hl, by rw [← hrec]; simp, hdl, ?_⟩, ?_⟩
  · rw [(h.decoded hdl).flags_eq]
    exact hdlegal
  · intro hbehind
    have hpc : (c.executePoint s).pc = (m.executed n).pc + 4 := by
      rw [Core.executePoint, Sequential.pc_foresee _ hl hlegal hhalt,
        successor_of_not_control (not_control_of_access _ _ _ haccess), fallThrough_eq, issued_pc,
        hin.follows.pc, hret, Machine.pc_executed]
    have hrecent : (c.executePoint s).recent = (m.after n).memory := by
      rw [Core.executePoint, Sequential.recent_foresee, if_pos hl, hin.follows.memory, hret]
    have holder : (c.executePoint s).older = (m.after (n - 1)).memory := by
      rw [Core.executePoint, Sequential.older_foresee _ hl hlegal, hin.follows.recent, hret]
    rcases (h.accepted hdl).sees with hw | hw
    · have := hbehind 0 (by decide)
      rw [Nat.sub_zero, ← hrecent, ← hpc, ← hw, hdlegal] at this
      cases this
    · have := hbehind 1 (by decide)
      rw [← holder, ← hpc, ← hw, hdlegal] at this
      cases this

/-- The cycle in which the first exception is raised moves on. -/
theorem Consistent.tick_raises (h : Consistent s c) (hx : c.machine.counters.exceptions = 0)
    (hx' : c.tick.machine.counters.exceptions ≠ 0) :
    c.pipeline.status = .success ∧ c.pipeline.control.memStall = 0 ∧
      Consistent (c.memoryPoint s) c.tick ∧ c.tick.pipeline.control.exceptionRaised = true := by
  cases ht : c.pipeline.status.isTerminal with
  | true => rw [Core.tick_of_terminal ht] at hx'; exact absurd hx hx'
  | false =>
    have hs := RunStatus.eq_success ht
    rcases Nat.eq_zero_or_pos c.pipeline.control.memStall with hm | hm
    · have hraised := (h.untrapped hx).1
      refine ⟨hs, hm, ?_⟩
      rcases h.tick_moving hs hm with hc | ⟨hx, -⟩
      · refine ⟨hc, ?_⟩
        rw [hc.exceptions] at hx'
        cases hb : c.tick.pipeline.control.exceptionRaised with
        | true => rfl
        | false => rw [hb] at hx'; exact absurd rfl hx'
      · cases hx with
        | fault h1 => rw [hraised] at h1; cases h1
        | illegal h1 => rw [hraised] at h1; cases h1
    · rw [Core.tick_of_frozen hs hm] at hx'
      exact absurd hx hx'

/-- While no exception has been raised, the instructions in the slots are numbered one by one. -/
theorem Consistent.tick_numbering (h : Consistent s c) (hx : c.machine.counters.exceptions = 0)
    (hs : c.pipeline.status = .success) (hm : c.pipeline.control.memStall = 0)
    (hc : Consistent (c.memoryPoint s) c.tick)
    (hml : c.tick.pipeline.slots.memory.isLive = true)
    (hel : c.tick.pipeline.slots.execute.isLive = true) :
    c.tick.pipeline.slots.execute.id = c.tick.pipeline.slots.memory.id + 1 := by
  obtain ⟨-, -, he, hp⟩ := h.untrapped hx
  have hmid := (hc.completed hml).accepts.numbered hp
  obtain ⟨-, hlive, -, hexec⟩ := tick_slots hs hm
  obtain ⟨hdl, -, hdid⟩ := hexec hel
  have hxl : c.pipeline.slots.execute.isLive = true := hlive.symm.trans hml
  have hret : (c.executePoint s).retired = (c.memoryPoint s).retired + 1 := by
    rw [Core.executePoint, Sequential.foresee_of_live _ hxl, Sequential.retired_next]
  rw [hdid, hmid, ← hret]
  exact (h.accepted hdl).numbered he

/-- The first exception is raised for the instruction at which the functional run stops, or this
instruction has been overtaken. -/
theorem Consistent.first_exception (h : Consistent s c) (hx : c.machine.counters.exceptions = 0)
    (hx' : c.tick.machine.counters.exceptions ≠ 0) (hin : (c.memoryPoint s).InStep m)
    (hid : m.nextId = 0) (hsafe : m.FetchSafe) (hn : m.FailsAt n) :
    c.tick.Raises (m.executed n) ∨
      (c.tick.Overtakes (m.executed n) ∧ ¬ m.LegalBehind n ∧
        ((c.tick.memoryPoint (c.memoryPoint s)).record c.tick.pipeline.slots.execute.raw
          c.tick.pipeline.slots.execute.id).memFault = true) := by
  obtain ⟨hs, hm, hc, hraised⟩ := h.tick_raises hx hx'
  obtain ⟨-, hd, he, -⟩ := h.untrapped hx
  obtain ⟨-, hlive, hraw, hexec⟩ := tick_slots hs hm
  cases ht : (c.tick.memoryPoint (c.memoryPoint s)).trapped with
  | true =>
    -- the access has just failed; before the cycle its word was known to be an instruction
    left
    apply hc.raises_memory hin hid hsafe hn _ ht
    intro hml
    rw [Core.executePoint, Sequential.trapped_foresee, ← hlive, hml, hin.untrapped] at he
    rw [hraw]
    simpa using he
  | false =>
    have hpoint : (c.tick.memoryPoint (c.memoryPoint s)).InStep m :=
      hin.pass_of_untrapped hid hsafe (fun hl => (hc.completed hl).accepts) ht
    cases hl : c.tick.pipeline.slots.execute.isLive with
    | false =>
      refine .inl (hc.raises_decode hraised ?_ hid hsafe hn)
      rw [Core.executePoint, Sequential.foresee_of_not_live _ hl]
      exact hpoint
    | true =>
      cases hf : ((c.tick.memoryPoint (c.memoryPoint s)).record c.tick.pipeline.slots.execute.raw
          c.tick.pipeline.slots.execute.id).memFault with
      | true =>
        obtain ⟨hover, hillegal⟩ := hc.overtakes hraised hpoint hid hsafe hn hl hf
        exact .inr ⟨hover, hillegal, rfl⟩
      | false =>
        obtain ⟨hdl, hdraw, -⟩ := hexec hl
        have hlegal : c.tick.pipeline.slots.execute.raw.flags.legal = true := by
          rw [Core.decodePoint, Sequential.trapped_foresee, he, hdl] at hd
          rw [hdraw]
          simpa using hd
        have hpass := Sequential.foresee_eq_pass (c.tick.memoryPoint (c.memoryPoint s)) fun _ => hf
        refine .inl (hc.raises_decode hraised ?_ hid hsafe hn)
        change ((c.tick.memoryPoint (c.memoryPoint s)).foresee _).InStep m
        rw [hpass]
        refine hpoint.pass_of_untrapped hid hsafe (fun hl => (hc.executed hl).accepts) ?_
        rw [← hpass, Sequential.trapped_foresee, hpoint.untrapped, hlegal, Bool.not_true,
          Bool.and_false]
        rfl

/-- An instruction that raises the first exception has not been overtaken. -/
theorem Consistent.not_overtakes (h : Consistent s c) (hx : c.machine.counters.exceptions = 0)
    (hx' : c.tick.machine.counters.exceptions ≠ 0) (hr : c.tick.Raises (m.executed n)) :
    ¬ c.tick.Overtakes (m.executed n) := by
  intro ho
  rcases hr with ⟨-, hmem⟩ | ⟨hlegal, -⟩
  · obtain ⟨hs, hm, hc, -⟩ := h.tick_raises hx hx'
    have hlive : c.tick.pipeline.slots.memory.isLive = true := by
      rw [hmem, Machine.executed, Machine.step_fst]
      simp [isLive]
    have := h.tick_numbering hx hs hm hc hlive ho.live
    rw [hmem, ho.same] at this
    omega
  · rw [Machine.legal_of_memFault ho.fault] at hlegal
    cases hlegal

end FirstException

namespace Machine.Fresh

variable {m : Machine} {n : Nat}

/-- If the functional run stops at an instruction that fails, the pipeline raises an exception. -/
theorem exists_raisesAt (h : m.Fresh) (hsafe : m.FetchSafe) (hn : m.FailsAt n) :
    ∃ k, m.core.RaisesAt k := by
  obtain ⟨k, hk⟩ := h.consistent.retires_or_ends (n + 1)
  have h₀ : m.core.machine.counters.exceptions = 0 := by
    change m.counters.exceptions = 0
    rw [h.counters.1]
  apply Core.exists_raisesAt h₀ (n := k)
  intro hx
  obtain ⟨s, hr, hin, -⟩ := h.reached_of_no_exception hsafe hx
  obtain ⟨hrun, hle⟩ := hin.le_of_failsAt hn
  rcases hk with hk | hk
  · rw [hin.status_eq hr.consistent, hrun] at hk
    cases hk
  · rw [hr.length_retired] at hk
    omega

/-- The first exception is raised for the instruction at which the functional run stops, unless this
instruction is overtaken. -/
theorem raisesFirst_iff (h : m.Fresh) (hsafe : m.FetchSafe) (hn : m.FailsAt n) :
    (m.core.RaisesFirst (m.executed n) ↔ ¬ m.core.Overtaken (m.executed n)) ∧
      (m.LegalBehind n → ¬ m.core.Overtaken (m.executed n)) := by
  obtain ⟨k, hk⟩ := h.exists_raisesAt hsafe hn
  obtain ⟨s, hr, -, hpoint⟩ := h.reached_of_no_exception hsafe hk.before
  have hraised := hk.raised
  rw [Core.runTicks_one_more] at hraised
  have hcases := hr.consistent.first_exception hk.before hraised hpoint h.counters.2 hsafe hn
  have hnot := hr.consistent.not_overtakes (m := m) (n := n) hk.before hraised
  rw [← Core.runTicks_one_more] at hcases hnot
  refine ⟨⟨?_, ?_⟩, ?_⟩
  · rintro ⟨i, hi, hraises⟩ ⟨j, hj, hover⟩
    rw [hi.unique hk] at hraises
    rw [hj.unique hk] at hover
    exact hnot hraises hover
  · intro ho
    exact ⟨k, hk, hcases.resolve_right fun ⟨hover, _⟩ => ho ⟨k, hk, hover⟩⟩
  · rintro hbehind ⟨j, hj, hover⟩
    rw [hj.unique hk] at hover
    rcases hcases with hraises | ⟨-, hillegal, -⟩
    · exact hnot hraises hover
    · exact hillegal hbehind

end Machine.Fresh

/-- A failing access behind an exception ends the run, once the data cache lets it move on. -/
theorem Consistent.ends_of_fault {s : Sequential} {c : Core} (h : Consistent s c)
    (hs : c.pipeline.status = .success) (hraised : c.pipeline.control.exceptionRaised = true)
    (hl : c.pipeline.slots.execute.isLive = true)
    (hf : ((c.memoryPoint s).record c.pipeline.slots.execute.raw
      c.pipeline.slots.execute.id).memFault = true) : ∃ k, (Core.runTicks k c).EndedTwice := by
  rcases Nat.eq_zero_or_pos c.pipeline.control.memStall with hm | hm
  · refine ⟨1, ?_⟩
    rw [Core.runTicks_succ]
    exact h.tick_of_fault hs hm hraised hl hf
  · have hstall : c.tick.pipeline.control.memStall < c.pipeline.control.memStall := by
      rw [Core.tick_of_frozen hs hm]
      exact Nat.sub_lt hm Nat.zero_lt_one
    have e := Core.tick_of_frozen hs hm
    obtain ⟨k, hk⟩ := (h.tick_frozen hs hm).ends_of_fault (by rw [e]; exact hs)
      (by rw [e]; exact hraised) (by rw [e]; exact hl) (by rw [e]; exact hf)
    exact ⟨k + 1, by rw [Core.runTicks_succ]; exact hk⟩
termination_by c.pipeline.control.memStall

/-- If the failing instruction is overtaken, its own exception ends the run. -/
theorem Machine.Fresh.ends_of_overtaken {m : Machine} {n : Nat} (h : m.Fresh)
    (hsafe : m.FetchSafe) (hn : m.FailsAt n) (hover : m.core.Overtaken (m.executed n)) :
    ∃ k, (Core.runTicks k m.core).EndedTwice := by
  obtain ⟨k, hk, hover⟩ := hover
  obtain ⟨s, hr, -, hpoint⟩ := h.reached_of_no_exception hsafe hk.before
  have hraised := hk.raised
  rw [Core.runTicks_one_more] at hraised hover
  obtain ⟨-, -, hc, hraised'⟩ := hr.consistent.tick_raises hk.before hraised
  rcases hr.consistent.first_exception hk.before hraised hpoint h.counters.2 hsafe hn with
    hraises | ⟨-, -, hf⟩
  · exact absurd hover (hr.consistent.not_overtakes hk.before hraised hraises)
  · have hs : (Core.runTicks k m.core).tick.pipeline.status = .success := by
      rw [hpoint.status_eq hc, (hpoint.le_of_failsAt hn).1]
      rfl
    obtain ⟨j, hj⟩ := hc.ends_of_fault hs hraised' hover.live hf
    exact ⟨k + 1 + j, by rw [Core.runTicks_add, Core.runTicks_one_more]; exact hj⟩

end FiveStage
