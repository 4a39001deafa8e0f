import FiveStage.CommandLine.Arguments
import FiveStage.CommandLine.OutputBase
import FiveStage.Simulator.Basic

/-!
# Running a command line

From arguments and files to an exit code, the text on the console and the files that are left.
Nothing is written before everything the run needs has been read and accepted.
-/

namespace FiveStage

/-- A failure together with what was being done. -/
structure SessionFailure where
  context : String
  failure : Failure
  deriving DecidableEq, Repr

/-- A failure in one line: what was being done, what failed, and why. -/
def SessionFailure.message (e : SessionFailure) : String :=
  ": ".intercalate (e.context :: e.failure.message :: e.failure.causes)

/-- What a session leaves behind. -/
structure Outcome where
  exitCode : UInt8
  console : String
  /-- the line that reports a failure -/
  failure : Option String := none
  /-- why the command line is refused -/
  refusal : Option UsageError := none
  files : Files

/-- The exit code for a command line or settings that are not accepted. -/
def rejectedExitCode : UInt8 := 2

namespace Arguments

/-- A failure as one of a session. -/
def during {α : Type} (context : String) : Except Failure α → Except SessionFailure α
  | .ok a => .ok a
  | .error failure => .error { context, failure }

/-- The settings from a file, or the default ones. -/
def baseConfig (a : Arguments) (f : Files) : Except SessionFailure Config :=
  match a.config with
  | some path => during ("loading configuration " ++ path) (f.readConfig path)
  | none => .ok {}

/-- A geometry from an option, or the one it would replace. -/
def geometry (option : String) (spec : Option String) (g : Geometry) :
    Except SessionFailure Geometry :=
  match spec with
  | some text => during option ((Geometry.readSpec text.toList).mapError .config)
  | none => .ok g

/-- The range to dump from a file, or the one it would replace. -/
def dumpRange (a : Arguments) (c : Config) (f : Files) : Except SessionFailure (Word × Word) :=
  match a.memRange with
  | some path => during ("reading memory range " ++ path) (f.readRange path)
  | none => .ok (c.dumpStart, c.dumpEnd)

/-- The settings with everything an option names replaced. -/
def settings (a : Arguments) (f : Files) : Except SessionFailure Config := do
  let c ← a.baseConfig f
  let instructionCache ← geometry "--icache" a.icache c.instructionCache
  let dataCache ← geometry "--dcache" a.dcache c.dataCache
  let (dumpStart, dumpEnd) ← a.dumpRange c f
  let c :=
    { c with
      mode := a.mode.getD c.mode
      initImage := a.initMem.or c.initImage
      instructionCache
      dataCache
      dumpStart
      dumpEnd }
  during "invalid configuration" (c.validate.mapError .config)
  return c

/-- The path the names of the reports begin with. -/
def outputBase (a : Arguments) : String :=
  a.output.getD (String.ofList (OutputBase.ofImage a.image.toList))

/-- The budget of a run in a given model. -/
def budget (a : Arguments) : RunMode → Nat
  | .functional => a.instructions.getD 0
  | .pipelined => a.cycles.getD 0

/-- A simulator ready to run, and the files with the log of a pipelined run begun. -/
def prepare (a : Arguments) (f : Files) : Except SessionFailure (Simulator × Files) := do
  let c ← a.settings f
  let memory ← during ("loading " ++ a.image) (Memory.ofProgram c a.image f)
  let s ← during "building simulator" ((Simulator.build c memory).mapError .config)
  match c.mode with
  | .functional => return (s, f)
  | .pipelined =>
    let path := Simulator.reportPath a.outputBase "_pipe_state.out"
    during ("creating " ++ path) (s.streamLog path f)

/-- Ends the log and writes the reports. -/
def report (a : Arguments) (s : Simulator) (f : Files) : Option SessionFailure × Files :=
  match s.finishLog f with
  | (some failure, _, f) => (some { context := "writing pipeline state", failure }, f)
  | (none, s, f) =>
    match s.writeReports a.outputBase f with
    | (.error failure, f) =>
      (some { context := "writing reports to " ++ a.outputBase, failure }, f)
    | (.ok _, f) => (none, f)

/-- What the console shows after a run. -/
def console (a : Arguments) (s : Simulator) : String :=
  if a.quiet then ""
  else s.stats.summary [] ++ "status                   " ++ s.status.describe ++ "\n"

/-- Runs what the arguments ask for. -/
def session (a : Arguments) (f : Files) : Outcome :=
  match a.prepare f with
  | .error e =>
    { exitCode := rejectedExitCode, console := "", failure := some e.message, files := f }
  | .ok (s, f) =>
    let (s, f) := s.run (a.budget s.mode) f
    match a.report s f with
    | (some e, f) =>
      { exitCode := rejectedExitCode, console := "", failure := some e.message, files := f }
    | (none, f) => { exitCode := s.status.exitCode, console := a.console s, files := f }

end Arguments

/-- The line that tells the version of the program. -/
def versionLine : String := "rvpipe 0.3.0\n"

/-- The text that explains the command line. -/
def usageText : String :=
  "Usage: rvpipe [OPTIONS] IMAGE\n\n"
    ++ "  -c, --config FILE      JSON configuration; the options below override it\n"
    ++ "  -m, --mode MODE        functional or pipelined\n"
    ++ "      --cycles N         cycle budget of a pipelined run, 0 for none\n"
    ++ "      --instructions N   instruction budget of a functional run, 0 for none\n"
    ++ "      --icache SPEC      instruction cache as SIZE,BLOCK,WAYS,LATENCY\n"
    ++ "      --dcache SPEC      data cache as SIZE,BLOCK,WAYS,LATENCY\n"
    ++ "      --init-mem FILE    hexadecimal address and value pairs stored before the run\n"
    ++ "      --mem-range FILE   hexadecimal start and end of the memory to report\n"
    ++ "  -o, --output BASE      base path of the report files\n"
    ++ "      --trace            log every pipeline event\n"
    ++ "  -q, --quiet            no summary on the console\n"

/-- Runs a command line. -/
def runCommandLine (args : List String) (f : Files) : Outcome :=
  match Request.ofArguments args with
  | .run a => a.session f
  | .version => { exitCode := 0, console := versionLine, files := f }
  | .help => { exitCode := 0, console := usageText, files := f }
  | .refused e =>
    { exitCode := rejectedExitCode, console := "", refusal := some e, files := f }

end FiveStage
