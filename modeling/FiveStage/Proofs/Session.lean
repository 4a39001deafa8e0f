import FiveStage.CommandLine.Session
import FiveStage.Proofs.Reports

/-! # Sessions

A session either has everything it needs before it writes, or it leaves the files as they are. What
it needs is stated apart from the order in which it is looked for (`Arguments.Ready`): settings that
are accepted, with what the options name laid over them, a memory with the program in it, and in
pipelined mode a log that can be created. What a session then leaves is stated by
`Arguments.Reported`. -/

namespace FiveStage

section Except

variable {ε ε' α β : Type} {x : Except ε α} {a : α} {b : β}

end Except

/-- What an option names if it is given, and what was there before if it is not. -/
def Named {α β : Type} (option : Option α) (names : α → β → Prop) (before after : β) : Prop :=
  match option with
  | some x => names x after
  | none => after = before

namespace Arguments

/-- The path of one of the reports. -/
def path (a : Arguments) (suffix : String) : String := Simulator.reportPath a.outputBase suffix

/-- The status a run ends with, and the machine it leaves. -/
def final (a : Arguments) (c : Config) (memory : Memory) : RunStatus × Machine :=
  let machine := Machine.ofConfig c memory .zero
  match c.mode with
  | .functional => machine.runInstructions (a.budget .functional)
  | .pipelined =>
    let core := machine.core.runCycles (a.budget .pipelined)
    (core.pipeline.status, core.machine)

/-- The paths of all files a session writes. -/
def paths (a : Arguments) : RunMode → List String
  | .functional => Simulator.reportSuffixes.tail.map a.path
  | .pipelined => Simulator.reportSuffixes.map a.path

/-- The diagram of a run, as a text. -/
def diagram (a : Arguments) (c : Config) (memory : Memory) : String :=
  Text.unlines ((Machine.ofConfig c memory .zero).core.diagram (a.final c memory).2.counters.cycles)

/-- All texts a session writes, with their paths. -/
def outputs (a : Arguments) (c : Config) (memory : Memory) : List (String × String) :=
  let m := (a.final c memory).2
  (match c.mode with
    | .functional => []
    | .pipelined => [(a.path "_pipe_state.out", a.diagram c memory)])
  ++ [(a.path "_reg_state.out", m.regs.report),
    (a.path "_mem_state.out", m.memory.report c.dumpStart c.dumpEnd),
    (a.path "_cache_state.out", m.cacheReport),
    (a.path "_sim_stats.out", m.stats.report)]

variable {a : Arguments} {f : Files} {c base : Config} {memory : Memory}

section Prepare

/-- Words are applied to a memory, or nothing is when none are named. -/
theorem initial_eq_ok_iff (hc : c.validate = .ok ()) {program : ByteArray} :
    Memory.initial c program f = .ok memory ↔
      ∃ placed, (Memory.zeros c.memoryBase c.memorySize).place c.memoryBase program.toList =
          .ok placed ∧
        Named c.initImage
          (fun path new => ∃ text n, f.readText path = .ok text ∧
            placed.applyImage text.toList = (.ok n, new))
          placed memory := by
  unfold Memory.initial
  rw [hc]
  cases (Memory.zeros c.memoryBase c.memorySize).place c.memoryBase program.toList with
  | error e => simp
  | ok placed =>
    simp only [Except.ok.injEq, exists_eq_left']
    cases c.initImage with
    | none => simp only [Named, Except.ok.injEq, eq_comm]
    | some path =>
      simp only [Named]
      cases f.readText path with
      | error e => simp
      | ok text =>
        simp only [Except.ok.injEq, exists_and_left, exists_eq_left']
        rcases placed.applyImage text.toList with ⟨e | n, m⟩
        · simp
        · simp

/-- The simulator that accepted settings are run with. -/
def simulator (c : Config) (memory : Memory) : Simulator :=
  { core := (Machine.ofConfig c memory .zero).core
    mode := c.mode
    dumpStart := c.dumpStart
    dumpEnd := c.dumpEnd }

theorem build_eq_ok_iff (hc : c.validate = .ok ()) {s : Simulator} :
    Simulator.build c memory = .ok s ↔ s = simulator c memory := by
  unfold Simulator.build
  simp only [hc, Machine.build_ofConfig hc, Except.ok.injEq]
  exact eq_comm

end Prepare

section Outputs

end Outputs

section Run

variable {s s' : Simulator} {f f' f'' : Files} {l : Location}

/-- A simulator that has come to the end of the run. -/
structure Ended (a : Arguments) (c : Config) (memory : Memory) (s : Simulator) : Prop where
  status : s.status = (a.final c memory).1
  machine : s.core.machine = (a.final c memory).2
  dumpStart : s.dumpStart = c.dumpStart
  dumpEnd : s.dumpEnd = c.dumpEnd

/-- Only what is left of the log distinguishes simulators that have come to the same end. -/
theorem Ended.of_bare (h : a.Ended c memory s) (hbare : s'.bare = s.bare) :
    a.Ended c memory s' where
  status := (congrArg Simulator.status hbare).trans h.status
  machine := (congrArg (fun s : Simulator => s.core.machine) hbare).trans h.machine
  dumpStart := (congrArg Simulator.dumpStart hbare).trans h.dumpStart
  dumpEnd := (congrArg Simulator.dumpEnd hbare).trans h.dumpEnd

/-- The reports of a run show what it has ended with. -/
theorem Ended.reports (h : a.Ended c memory s) (hlog : s.logText? = none) :
    a.outputs c memory =
      (match c.mode with
        | .functional => []
        | .pipelined => [(a.path "_pipe_state.out", a.diagram c memory)])
      ++ s.reports a.outputBase := by
  rw [Simulator.reports_of_streamed hlog, Simulator.stats, h.machine, h.dumpStart, h.dumpEnd]
  rfl

/-- What a pipelined session comes to when its log is ended: the log holds a line for each cycle of
the run, unless there is no space for them. -/
structure Closes (a : Arguments) (f : Files) (c : Config) (memory : Memory) (l : Location)
    (s : Simulator) (r : Option Failure × Simulator × Files) : Prop where
  status : s.status = (a.final c memory).1
  ended : a.Ended c memory r.2.1
  streamed : r.2.1.logText? = none
  failure : r.1 = if f.fits l (a.diagram c memory).toUTF8.size then none
    else some (.io (a.path "_pipe_state.out") .noSpace)
  rewritten : Files.Rewritten (· = l) f r.2.2
  lines : f.isFull l = false → f.fits l (a.diagram c memory).toUTF8.size = true →
    r.2.2.lookup l = some (.file (a.diagram c memory).toUTF8)

namespace Closes

theorem outputs {r : Option Failure × Simulator × Files} (h : a.Closes f c memory l s r)
    (hm : c.mode = .pipelined) :
    a.outputs c memory =
      (a.path "_pipe_state.out", a.diagram c memory) :: r.2.1.reports a.outputBase := by
  rw [h.ended.reports h.streamed, hm]
  rfl

theorem fits (h : a.Closes f c memory l s (none, s', f')) :
    f.fits l (a.diagram c memory).toUTF8.size = true := by
  cases hfits : f.fits l (a.diagram c memory).toUTF8.size with
  | true => rfl
  | false =>
    have hfailure := h.failure
    rw [hfits] at hfailure
    cases hfailure

end Closes

end Run

end Arguments

end FiveStage
