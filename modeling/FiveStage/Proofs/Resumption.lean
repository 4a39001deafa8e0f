import Mathlib.Data.ENat.Lattice
import FiveStage.Proofs.Phases
import FiveStage.Proofs.Refinement
import FiveStage.Simulator.Basic

/-! # Runs in pieces

A budget may stop a run anywhere, and nothing is lost by it: runs for several budgets one after the
other are a run for their sum (`Simulator.runEach_eq_run_sum`), since the loop of either model can
be cut between any two of its rounds (`tickLogged_add`, `runSteps_split`). How long a run goes on is
the least of its budget and of what is left until it ends. -/

namespace FiveStage

/-- The first number with a property; infinite if no number has it. -/
noncomputable def earliest (P : Nat → Prop) : ENat := ⨅ (n : Nat) (_ : P n), (n : ENat)

/-- A count that stops at a budget, or earlier where a property first holds. -/
theorem min_earliest {P : Nat → Prop} {b n : Nat} (hb : n ≤ b) (hbefore : ∀ k, k < n → ¬ P k)
    (hend : n = b ∨ P n) : min (b : ENat) (earliest P) = n := by
  have hle : (n : ENat) ≤ earliest P := by
    refine le_iInf₂ fun k hk => Nat.cast_le.mpr ?_
    exact Nat.le_of_not_lt fun hlt => hbefore k hlt hk
  rcases hend with rfl | hn
  · exact min_eq_left hle
  · have heq : earliest P = n := le_antisymm (iInf₂_le n hn) hle
    rw [heq]
    exact min_eq_right (Nat.cast_le.mpr hb)

namespace Core

section Cycles

variable (c : Core)

theorem cycles_dispatch (i : Instruction) :
    (c.dispatch i).machine.counters.cycles = c.machine.counters.cycles := by
  rw [machine_dispatch]
  split <;> rfl

theorem cycles_decodePhase :
    c.decodePhase.machine.counters.cycles = c.machine.counters.cycles := by
  unfold decodePhase
  split
  next target _ => rw [redirectPhase_eq]
  next =>
    split
    · rfl
    split
    · rfl
    · refine (cycles_dispatch _ _).trans ?_
      show (c.machine.decodeStage c.pipeline.slots.fetch).2.counters.cycles = _
      unfold Machine.decodeStage
      split <;> rfl

theorem cycles_fetchPhase :
    c.fetchPhase.machine.counters.cycles = c.machine.counters.cycles := by
  obtain ⟨_, _, _, _, e⟩ := fetchPhase_shape c
  rw [e]

theorem cycles_holdPhase (k : Hold) :
    (c.holdPhase k).machine.counters.cycles = c.machine.counters.cycles := by
  cases k <;> rfl

theorem cycles_issueHalf :
    c.issueHalf.machine.counters.cycles = c.machine.counters.cycles := by
  rcases c.issueHalf_cases with ⟨k, -, e⟩ | ⟨-, -, e⟩ | ⟨-, -, e⟩
  · rw [e]
    show (c.holdPhase k).resolvePhase.machine.counters.cycles = _
    rw [machine_resolvePhase, cycles_holdPhase]
  · rw [e]
    rfl
  · rw [e, cycles_fetchPhase, machine_resolvePhase, cycles_decodePhase]
    rfl

/-- Every cycle of a run that goes on is counted. -/
theorem cycles_tick {c : Core} (h : c.pipeline.status.isTerminal = false) :
    c.tick.machine.counters.cycles = c.machine.counters.cycles + 1 := by
  have hs := RunStatus.eq_success h
  rcases Nat.eq_zero_or_pos c.pipeline.control.memStall with hm | hm
  · rw [tick_of_moving hs hm, movingCycle, cycles_issueHalf, counters_retireHalf]
    rfl
  · rw [tick_of_frozen hs hm]
    rfl

end Cycles

/-- How many cycles are left until the run of a core ends. -/
noncomputable def ticksLeft (c : Core) : ENat :=
  earliest fun n => (tick^[n] c).pipeline.status.isTerminal = true

/-- A run for a budget of cycles ends with the budget, or with the status of the pipeline. -/
theorem runTicks_stops (b : Nat) (c : Core) :
    ∃ n ≤ b, runTicks b c = tick^[n] c ∧
      (∀ k, k < n → (tick^[k] c).pipeline.status.isTerminal = false) ∧
      (n = b ∨ (tick^[n] c).pipeline.status.isTerminal = true) := by
  induction b generalizing c with
  | zero => exact ⟨0, le_rfl, rfl, fun k hk => absurd hk (Nat.not_lt_zero k), .inl rfl⟩
  | succ b ih =>
    cases ht : c.pipeline.status.isTerminal with
    | true =>
      refine ⟨0, Nat.zero_le _, runTicks_of_terminal ht _, ?_, .inr ht⟩
      exact fun k hk => absurd hk (Nat.not_lt_zero k)
    | false =>
      obtain ⟨n, hn, hrun, hbefore, hend⟩ := ih c.tick
      refine ⟨n + 1, Nat.succ_le_succ hn, by rw [runTicks_succ, hrun]; rfl, ?_, ?_⟩
      · intro k hk
        cases k with
        | zero => exact ht
        | succ k => exact hbefore k (Nat.lt_of_succ_lt_succ hk)
      · exact hend.imp (congrArg Nat.succ) id

theorem cycles_iterate {n : Nat} {c : Core}
    (h : ∀ k, k < n → (tick^[k] c).pipeline.status.isTerminal = false) :
    (tick^[n] c).machine.counters.cycles = c.machine.counters.cycles + n := by
  induction n with
  | zero => rfl
  | succ n ih =>
    rw [Function.iterate_succ_apply', cycles_tick (h n (Nat.lt_succ_self n)),
      ih fun k hk => h k (Nat.lt_succ_of_lt hk), Nat.add_assoc]

end Core

namespace Machine

/-- How many instructions are left until the functional run of a machine ends, the one that ends it
included. -/
noncomputable def stepsLeft (m : Machine) : ENat :=
  earliest fun n => ∃ k, n = k + 1 ∧ (m.executed k).stepEnd ≠ .completed

/-- A run for a budget of instructions ends with the budget, or with an instruction that does not
complete. -/
theorem runSteps_stops (b : Nat) (m : Machine) :
    ∃ n : Nat, (n : ENat) = min (b : ENat) m.stepsLeft ∧ (m.runSteps b).2 = m.after n := by
  rcases m.reaches_or_ends b with hr | ⟨k, hk, hr, he⟩
  · refine ⟨b, (min_earliest le_rfl ?_ (.inl rfl)).symm, by rw [runSteps_of_reaches hr]⟩
    rintro _ hj ⟨j, rfl, he⟩
    exact he (hr j (Nat.lt_of_succ_lt hj))
  · refine ⟨k + 1, (min_earliest hk ?_ (.inr ⟨k, rfl, he⟩)).symm, ?_⟩
    · rintro _ hj ⟨j, rfl, hend⟩
      exact hend (hr j (Nat.lt_of_succ_lt_succ hj))
    · cases hend : (m.executed k).stepEnd with
      | completed => exact absurd hend he
      | halted => rw [runSteps_of_halted hr hend hk]
      | failed => rw [runSteps_of_failed hr hend hk]

/-- A functional run can be cut anywhere: it goes on from where the first part has left the machine,
unless that part has ended it. -/
theorem runSteps_split (a b : Nat) (m : Machine) :
    m.runSteps (a + b) =
      if (m.runSteps a).1.isTerminal then m.runSteps a else (m.runSteps a).2.runSteps b := by
  rcases m.reaches_or_ends a with hr | ⟨k, hk, hr, he⟩
  · rw [runSteps_add hr, runSteps_of_reaches hr]
    rfl
  · have hk' : k < a + b := Nat.lt_of_lt_of_le hk (Nat.le_add_right a b)
    cases hend : (m.executed k).stepEnd with
    | completed => exact absurd hend he
    | halted =>
      rw [runSteps_of_halted hr hend hk, runSteps_of_halted hr hend hk']
      rfl
    | failed =>
      rw [runSteps_of_failed hr hend hk, runSteps_of_failed hr hend hk']
      rfl

end Machine

theorem budgetLimit_of_pos {b : Nat} (h : 0 < b) : budgetLimit b = b :=
  if_neg (Nat.ne_of_gt h)

/-- Every budget lets a run begin. -/
theorem budgetLimit_pos (b : Nat) : 0 < budgetLimit b := by
  rcases Nat.eq_zero_or_pos b with rfl | hb
  · decide
  · rw [budgetLimit_of_pos hb]
    exact hb

namespace Simulator

/-- The simulator with another status. -/
def withStatus (s : Simulator) (status : RunStatus) : Simulator := { s with status }

section Loop

variable (s : Simulator) (f : Files) (status : RunStatus)

/-- The log has no part in the status, nor in what it is a log of. -/
theorem logCycle_withStatus :
    (s.withStatus status).logCycle f = ((s.logCycle f).1.withStatus status, (s.logCycle f).2) := by
  obtain ⟨core, mode, _, dumpStart, dumpEnd, log, logFailure⟩ := s
  cases log with
  | none => rfl
  | some log =>
    simp only [withStatus, logCycle]
    split <;> rfl

theorem logCycle_frame :
    (s.logCycle f).1.core = s.core ∧ (s.logCycle f).1.mode = s.mode ∧
      (s.logCycle f).1.status = s.status := by
  obtain ⟨core, mode, _, dumpStart, dumpEnd, log, logFailure⟩ := s
  cases log with
  | none => exact ⟨rfl, rfl, rfl⟩
  | some log =>
    simp only [logCycle]
    split <;> exact ⟨rfl, rfl, rfl⟩

/-- One round of the loop: a cycle and its line. -/
def logTick : Simulator × Files := { s with core := s.core.tick }.logCycle f

theorem tickLogged_succ (n : Nat) :
    tickLogged (n + 1) s f =
      if s.core.pipeline.status.isTerminal then (s, f)
      else tickLogged n (s.logTick f).1 (s.logTick f).2 := rfl

theorem tickLogged_of_terminal (h : s.core.pipeline.status.isTerminal = true) (n : Nat) :
    tickLogged n s f = (s, f) := by
  cases n with
  | zero => rfl
  | succ n => rw [tickLogged_succ, if_pos h]

theorem tickLogged_withStatus (n : Nat) :
    tickLogged n (s.withStatus status) f =
      ((tickLogged n s f).1.withStatus status, (tickLogged n s f).2) := by
  induction n generalizing s f with
  | zero => rfl
  | succ n ih =>
    cases h : s.core.pipeline.status.isTerminal with
    | true =>
      rw [tickLogged_of_terminal s f h]
      exact tickLogged_of_terminal (s.withStatus status) f h _
    | false =>
      have hround : (s.withStatus status).logTick f =
          ((s.logTick f).1.withStatus status, (s.logTick f).2) :=
        logCycle_withStatus { s with core := s.core.tick } f status
      have hround' : (s.withStatus status).core.pipeline.status.isTerminal = false := h
      rw [tickLogged_succ, tickLogged_succ, if_neg (by simp [hround']), if_neg (by simp [h]),
        hround, ih]

/-- The core of a logged run is that of a run without a log. -/
theorem core_tickLogged (n : Nat) : (tickLogged n s f).1.core = Core.runTicks n s.core := by
  induction n generalizing s f with
  | zero => rfl
  | succ n ih =>
    rw [tickLogged_succ, Core.runTicks]
    split
    · rfl
    · rw [ih, logTick, (logCycle_frame _ f).1]

theorem frame_tickLogged (n : Nat) :
    (tickLogged n s f).1.mode = s.mode ∧ (tickLogged n s f).1.status = s.status := by
  induction n generalizing s f with
  | zero => exact ⟨rfl, rfl⟩
  | succ n ih =>
    rw [tickLogged_succ]
    split
    · exact ⟨rfl, rfl⟩
    · obtain ⟨h1, h2⟩ := ih (s.logTick f).1 (s.logTick f).2
      obtain ⟨-, h3, h4⟩ := logCycle_frame { s with core := s.core.tick } f
      exact ⟨h1.trans h3, h2.trans h4⟩

/-- A logged run can be cut anywhere. -/
theorem tickLogged_add (a b : Nat) :
    tickLogged (a + b) s f = tickLogged b (tickLogged a s f).1 (tickLogged a s f).2 := by
  induction a generalizing s f with
  | zero => rw [Nat.zero_add]; rfl
  | succ a ih =>
    cases h : s.core.pipeline.status.isTerminal with
    | true =>
      rw [tickLogged_of_terminal s f h, tickLogged_of_terminal s f h,
        tickLogged_of_terminal s f h]
    | false =>
      rw [Nat.add_right_comm, tickLogged_succ, tickLogged_succ, if_neg (by simp [h]),
        if_neg (by simp [h]), ih]

end Loop

variable {s : Simulator} {f : Files}

theorem run_of_terminal (h : s.status.isTerminal = true) (b : Nat) : s.run b f = (s, f) := by
  unfold run
  split
  · rw [runInstructions, if_pos h]
  · rw [runCycles, if_pos h]

theorem run_functional (hm : s.mode = .functional) (hs : s.status.isTerminal = false) {b : Nat}
    (hb : 0 < b) :
    s.run b f =
      ({ s with
          status := (s.core.machine.runSteps b).1
          core.machine := (s.core.machine.runSteps b).2 }, f) := by
  have hrun : s.run b f = (s.runInstructions b, f) := by
    unfold run
    rw [hm]
  rw [hrun, runInstructions, if_neg (by simp [hs]), Machine.runInstructions,
    budgetLimit_of_pos hb]

theorem run_pipelined (hm : s.mode = .pipelined) (hs : s.status.isTerminal = false) {b : Nat}
    (hb : 0 < b) :
    s.run b f =
      ((tickLogged b s f).1.withStatus (Core.runTicks b s.core).pipeline.status,
        (tickLogged b s f).2) := by
  have hrun : s.run b f = s.runCycles b f := by
    unfold run
    rw [hm]
  rw [hrun, runCycles, if_neg (by simp [hs]), budgetLimit_of_pos hb, ← core_tickLogged s f b]
  rfl

theorem mode_run (b : Nat) (hb : 0 < b) : (s.run b f).1.mode = s.mode := by
  cases hs : s.status.isTerminal with
  | true => rw [run_of_terminal hs]
  | false =>
    cases hm : s.mode with
    | functional => rw [run_functional hm hs hb]; exact hm
    | pipelined =>
      rw [run_pipelined hm hs hb]
      exact (frame_tickLogged s f b).1.trans hm

/-- A run for two budgets is a run for their sum. -/
theorem run_add {a b : Nat} (ha : 0 < a) (hb : 0 < b) :
    s.run (a + b) f = (s.run a f).1.run b (s.run a f).2 := by
  have hab : 0 < a + b := Nat.add_pos_left ha b
  cases hs : s.status.isTerminal with
  | true => rw [run_of_terminal hs, run_of_terminal hs, run_of_terminal hs]
  | false =>
    have hmode := mode_run (s := s) (f := f) a ha
    cases hm : s.mode with
    | functional =>
      rw [hm] at hmode
      rw [run_functional hm hs hab, Machine.runSteps_split]
      cases ht : (s.core.machine.runSteps a).1.isTerminal with
      | true =>
        rw [if_pos rfl, run_functional hm hs ha, run_of_terminal ht]
      | false =>
        rw [if_neg (by simp)]
        rw [run_functional hm hs ha] at hmode ⊢
        rw [run_functional hmode ht hb]
    | pipelined =>
      rw [hm] at hmode
      rw [run_pipelined hm hs hab, tickLogged_add, Core.runTicks_add]
      cases ht : (Core.runTicks a s.core).pipeline.status.isTerminal with
      | true =>
        have hcore : (tickLogged a s f).1.core.pipeline.status.isTerminal = true := by
          rw [core_tickLogged, ht]
        rw [tickLogged_of_terminal _ _ hcore, Core.runTicks_of_terminal ht,
          run_pipelined hm hs ha, run_of_terminal ht]
      | false =>
        rw [run_pipelined hm hs ha] at hmode ⊢
        rw [run_pipelined hmode ht hb, tickLogged_withStatus]
        show _ = (((tickLogged b (tickLogged a s f).1 _).1.withStatus _).withStatus
          (Core.runTicks b (tickLogged a s f).1.core).pipeline.status, _)
        rw [core_tickLogged]
        rfl

/-- The simulator after runs for budgets one after the other. -/
def runEach (s : Simulator) (f : Files) : List Nat → Simulator × Files
  | [] => (s, f)
  | b :: bs => (s.run b f).1.runEach (s.run b f).2 bs

/-- Runs for budgets one after the other are a run for their sum. -/
theorem runEach_eq_run_sum (b : Nat) (bs : List Nat) (hpos : ∀ x ∈ b :: bs, 0 < x) :
    s.runEach f (b :: bs) = s.run (b :: bs).sum f := by
  induction bs generalizing s f b with
  | nil => rw [List.sum_singleton]; rfl
  | cons b' bs ih =>
    obtain ⟨hb, hrest⟩ := List.forall_mem_cons.mp hpos
    have hsum : 0 < (b' :: bs).sum := by
      rw [List.sum_cons]
      exact Nat.add_pos_left (hrest b' List.mem_cons_self) _
    show (s.run b f).1.runEach (s.run b f).2 (b' :: bs) = _
    rw [ih b' hrest, List.sum_cons (a := b), run_add hb hsum]

/-- A run that is to go on until the program ends does end, in a given state. -/
def EndsIn (s : Simulator) (f : Files) (r : Simulator × Files) : Prop :=
  ∃ n, 0 < n ∧ s.run n f = r ∧ r.1.status.isTerminal = true

/-- A run without a budget is one for more instructions or cycles than can be counted. -/
theorem run_zero : s.run 0 f = s.run 0x10000000000000000 f := rfl

theorem EndsIn.of_run_zero (h : (s.run 0 f).1.status.isTerminal = true) :
    s.EndsIn f (s.run 0 f) := ⟨0x10000000000000000, by decide, rfl, h⟩

/-- A run that has ended is not changed by a longer budget. -/
theorem run_of_ended {a b : Nat} (ha : 0 < a) (h : (s.run a f).1.status.isTerminal = true)
    (hab : a ≤ b) : s.run b f = s.run a f := by
  obtain ⟨d, rfl⟩ := Nat.exists_eq_add_of_le hab
  rcases Nat.eq_zero_or_pos d with rfl | hd
  · rfl
  · rw [run_add ha hd, run_of_terminal h]

/-- Where a run ends does not depend on a first part of it. -/
theorem endsIn_run_iff {b : Nat} (hb : 0 < b) {r : Simulator × Files} :
    (s.run b f).1.EndsIn (s.run b f).2 r ↔ s.EndsIn f r := by
  constructor
  · rintro ⟨n, hn, hrun, ht⟩
    exact ⟨b + n, Nat.add_pos_left hb n, (run_add hb hn).trans hrun, ht⟩
  · rintro ⟨n, hn, rfl, ht⟩
    refine ⟨n, hn, ?_, ht⟩
    rw [← run_add hb hn, run_of_ended hn ht (Nat.le_add_left n b)]

theorem run_zero_run {b : Nat} (hb : 0 < b) (h : (s.run 0 f).1.status.isTerminal = true) :
    (s.run b f).1.run 0 (s.run b f).2 = s.run 0 f := by
  rw [run_zero] at h ⊢
  rw [run_zero, ← run_add hb (by decide)]
  exact run_of_ended (by decide) h (Nat.le_add_left _ b)

/-- A call has run its model for as long as the budget and the program let it: for the lesser of the
budget and of what is left until the run ends. -/
def RunsUpTo (s s' : Simulator) (b : Nat) : Prop :=
  match s.mode with
  | .pipelined =>
    ∃ n : Nat, (n : ENat) = min (b : ENat) s.core.ticksLeft ∧ s'.core = Core.tick^[n] s.core ∧
      s'.core.machine.counters.cycles = s.core.machine.counters.cycles + n
  | .functional =>
    ∃ n : Nat, (n : ENat) = min (b : ENat) s.core.machine.stepsLeft ∧
      s'.core = { s.core with machine := s.core.machine.after n } ∧
      s'.core.machine.counters.instructions = s.core.machine.counters.instructions + n

theorem runsUpTo_run {b : Nat} (hb : 0 < b) (hs : s.status.isTerminal = false) :
    s.RunsUpTo (s.run b f).1 b := by
  unfold RunsUpTo
  cases hm : s.mode with
  | functional =>
    obtain ⟨n, hn, hrun⟩ := s.core.machine.runSteps_stops b
    rw [run_functional hm hs hb]
    refine ⟨n, hn, by rw [hrun], ?_⟩
    rw [hrun]
    exact Machine.instructions_after _ n
  | pipelined =>
    obtain ⟨n, hn, hrun, hbefore, hend⟩ := Core.runTicks_stops b s.core
    have hcore : (s.run b f).1.core = Core.tick^[n] s.core := by
      rw [run_pipelined hm hs hb, ← hrun, ← core_tickLogged s f b]
      rfl
    refine ⟨n, (min_earliest hn ?_ hend).symm, hcore, ?_⟩
    · intro k hk
      rw [hbefore k hk]
      simp
    · rw [hcore]
      exact Core.cycles_iterate hbefore

end Simulator

/-- Runs can be resumed, in either mode and whatever the simulator: runs for budgets one after the
other leave all that a single run for their sum leaves, the log and the files included; each call
runs for the lesser of its budget and of what is left until the run ends; a run to the end that
follows ends where one alone would have ended, if it does; and a run that has ended is changed by no
further call. -/
theorem runs_resumable (s : Simulator) (f : Files) (b : Nat) (bs : List Nat)
    (hpos : ∀ x ∈ b :: bs, 0 < x) :
    s.runEach f (b :: bs) = s.run (b :: bs).sum f ∧
    (∀ (t : Simulator) (g : Files) (x : Nat), 0 < x → t.status.isTerminal = false →
      t.RunsUpTo (t.run x g).1 x) ∧
    (∀ r, (s.runEach f (b :: bs)).1.EndsIn (s.runEach f (b :: bs)).2 r ↔ s.EndsIn f r) ∧
    ((s.run 0 f).1.status.isTerminal = true →
      s.EndsIn f (s.run 0 f) ∧
      (s.runEach f (b :: bs)).1.run 0 (s.runEach f (b :: bs)).2 = s.run 0 f) ∧
    (∀ (t : Simulator) (g : Files) (x : Nat), t.status.isTerminal = true → t.run x g = (t, g)) := by
  have hall := Simulator.runEach_eq_run_sum (s := s) (f := f) b bs hpos
  have hsum : 0 < (b :: bs).sum := by
    rw [List.sum_cons]
    exact Nat.add_pos_left (hpos b List.mem_cons_self) _
  refine ⟨hall, ?_, ?_, ?_, ?_⟩
  · intro t g x hx ht
    exact Simulator.runsUpTo_run hx ht
  · intro r
    rw [hall]
    exact Simulator.endsIn_run_iff hsum
  · intro h
    refine ⟨.of_run_zero h, ?_⟩
    rw [hall]
    exact Simulator.run_zero_run hsum h
  · intro t g x ht
    exact Simulator.run_of_terminal ht x

/-- A simulator about to run the storing machine in its pipeline. -/
def Simulator.storing : Simulator :=
  { core := Machine.storing.core, mode := .pipelined, dumpStart := 0, dumpEnd := 0 }

/-- Two budgets that stop the run in the middle of an instruction-cache miss and behind its end. -/
theorem runs_resumable_storing :
    (∀ x ∈ [3, 40], 0 < x) ∧
      (Simulator.storing.runEach { nodes := [] } [3, 40]).1.status = .halt ∧
      (Simulator.storing.runEach { nodes := [] } [3, 40]).1.core.machine.counters.cycles = 17 := by
  have hpos : ∀ x ∈ [3, 40], 0 < x := by decide
  rw [(runs_resumable Simulator.storing { nodes := [] } 3 [40] hpos).1]
  exact ⟨hpos, by decide +kernel, by decide +kernel⟩

end FiveStage
