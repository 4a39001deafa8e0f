import FiveStage.Loader
import FiveStage.Pipeline.Tick
import FiveStage.Report.PipelineDiagram
import FiveStage.Report.State
import FiveStage.Simulator.Log

/-!
# The simulator

A machine with its pipeline, the execution model chosen for it, the status of its last run, and the
log of the pipeline diagram. Operations that reach files take the files and return them.
-/

namespace FiveStage

/-- A simulator. -/
structure Simulator where
  core : Core
  mode : RunMode
  /-- the status of the last run -/
  status : RunStatus := .success
  dumpStart : Word
  dumpEnd : Word
  /-- where the lines of the pipeline diagram go, if they are wanted -/
  log : Option PipeLog := none
  /-- the failure that has stopped the log during a run -/
  logFailure : Option Failure := none

namespace Simulator

/-- A simulator for the program in a memory, from settings that are accepted. -/
def build (c : Config) (memory : Memory) : Except ConfigError Simulator :=
  match c.validate with
  | .error e => .error e
  | .ok () =>
    match Machine.build c memory with
    | .error e => .error e
    | .ok machine =>
      .ok { core := { machine }, mode := c.mode, dumpStart := c.dumpStart, dumpEnd := c.dumpEnd }

/-- Keeps the pipeline diagram in memory, unless it goes somewhere already. -/
def enableLog (s : Simulator) : Simulator :=
  match s.log with
  | some _ => s
  | none => { s with log := some (.buffer "") }

/-- Sends the pipeline diagram to a new file. A log that is replaced is closed. -/
def streamLog (s : Simulator) (path : String) (f : Files) : Except Failure (Simulator × Files) :=
  match f.create path with
  | .error e => .error (.io path e)
  | .ok (handle, f) =>
    let f :=
      match s.log with
      | some log => log.close f
      | none => f
    .ok ({ s with log := some (.file { path, handle }) }, f)

/-- Ends the log of a run: reports the failure that has stopped it, if there is one, and otherwise
writes out what is still buffered. -/
def finishLog (s : Simulator) (f : Files) : Option Failure × Simulator × Files :=
  match s.logFailure with
  | some e => (some e, { s with logFailure := none }, f)
  | none =>
    match s.log with
    | none => (none, s, f)
    | some log =>
      let (e, log, f) := log.flush f
      (e, { s with log := some log }, f)

/-- The lines of the pipeline diagram that are kept in memory. -/
def logText? (s : Simulator) : Option String :=
  match s.log with
  | some log => log.text?
  | none => none

/-- Adds the line of the last cycle to the log. A failure stops the log and is kept. -/
def logCycle (s : Simulator) (f : Files) : Simulator × Files :=
  match s with
  | { core, mode, status, dumpStart, dumpEnd, log := some log, logFailure } =>
    match log.pushLine core.snapshot.line f with
    | (none, log, f) =>
      ({ core, mode, status, dumpStart, dumpEnd, log := some log, logFailure }, f)
    | (some e, log, f) =>
      ({ core, mode, status, dumpStart, dumpEnd, log := none, logFailure := some e }, log.close f)
  | s => (s, f)

/-- Runs the pipeline for at most `n` cycles, with a line of the log for each. -/
def tickLogged : Nat → Simulator → Files → Simulator × Files
  | 0, s, f => (s, f)
  | n + 1, s, f =>
    if s.core.pipeline.status.isTerminal then (s, f)
    else
      let (s, f) := { s with core := s.core.tick }.logCycle f
      tickLogged n s f

/-- Runs the pipeline for a budget of cycles; zero runs until the program ends. -/
def runCycles (s : Simulator) (budget : Nat) (f : Files) : Simulator × Files :=
  if s.status.isTerminal then (s, f)
  else
    let (s, f) := tickLogged (budgetLimit budget) s f
    ({ s with status := s.core.pipeline.status }, f)

/-- Runs the functional model for a budget of instructions; zero runs until the program ends. -/
def runInstructions (s : Simulator) (budget : Nat) : Simulator :=
  if s.status.isTerminal then s
  else
    let (status, machine) := s.core.machine.runInstructions budget
    { s with status, core.machine := machine }

/-- Runs the chosen model for a budget of cycles or instructions. -/
def run (s : Simulator) (budget : Nat) (f : Files) : Simulator × Files :=
  match s.mode with
  | .functional => (s.runInstructions budget, f)
  | .pipelined => s.runCycles budget f

/-- The counters of the run. -/
def stats (s : Simulator) : Stats := s.core.machine.stats

/-- What is added to the name of a run for each of its reports. -/
def reportSuffixes : List String :=
  ["_pipe_state.out", "_reg_state.out", "_mem_state.out", "_cache_state.out", "_sim_stats.out"]

/-- The path of a report. -/
def reportPath (base suffix : String) : String := base ++ suffix

/-- The reports of a simulator with their paths, in the order they are written. The pipeline diagram
is among them only if it is kept in memory. -/
def reports (s : Simulator) (base : String) : List (String × String) :=
  let m := s.core.machine
  (match s.logText? with
    | some text => [(reportPath base "_pipe_state.out", text)]
    | none => [])
  ++ [(reportPath base "_reg_state.out", m.regs.report),
    (reportPath base "_mem_state.out", m.memory.report s.dumpStart s.dumpEnd),
    (reportPath base "_cache_state.out", m.cacheReport),
    (reportPath base "_sim_stats.out", s.stats.report)]

/-- Writes texts to files one after the other, up to the first that fails. -/
def saveAll : List (String × String) → Files → Option Failure × Files
  | [], f => (none, f)
  | (path, text) :: rest, f =>
    match f.save path text.toUTF8 with
    | (some e, f) => (some (.io path e), f)
    | (none, f) => saveAll rest f

/-- Writes the reports, and gives back their paths. -/
def writeReports (s : Simulator) (base : String) (f : Files) :
    Except Failure (List String) × Files :=
  let rs := s.reports base
  match saveAll rs f with
  | (some e, f) => (.error e, f)
  | (none, f) => (.ok (rs.map Prod.fst), f)

end Simulator

end FiveStage
