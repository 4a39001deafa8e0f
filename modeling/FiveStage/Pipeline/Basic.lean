import FiveStage.Machine.Basic

/-!
# The state of the pipeline

One instruction per stage, and what has to be remembered between cycles: outstanding misses, a
branch that waits for its operands, the address fetch is about to switch to, and whether an
exception has been taken.
-/

namespace FiveStage

/-- The address fetch switches to when an exception is taken. -/
def exceptionHandler : Word := 0x8000

/-- The names of the stages in the order an instruction passes them. -/
def stageNames : List String := ["IF", "ID", "EX", "MEM", "WB"]

/-- The instruction each stage worked on in the last cycle. -/
structure Slots where
  fetch : Instruction := .idle
  decode : Instruction := .idle
  execute : Instruction := .idle
  memory : Instruction := .idle
  writeback : Instruction := .idle
  deriving DecidableEq, Repr, Inhabited

/-- What the pipeline remembers from one cycle to the next besides its slots. -/
structure Control where
  /-- cycles left of an instruction-cache miss -/
  fetchStall : Nat := 0
  /-- cycles left of a data-cache miss -/
  memStall : Nat := 0
  /-- decode holds a branch or jump that waits for its operands -/
  controlPending : Bool := false
  /-- the address fetch switches to when decode next moves on -/
  redirect : Option Word := none
  /-- an illegal instruction or a memory fault has been met -/
  exceptionRaised : Bool := false
  /-- the halt word has been decoded, and fetch rests until a redirect -/
  fetchHalted : Bool := false
  deriving DecidableEq, Repr, Inhabited

/-- The pipeline. -/
structure Pipeline where
  slots : Slots := {}
  control : Control := {}
  status : RunStatus := .success
  deriving DecidableEq, Repr, Inhabited

/-- A machine with the pipeline that drives it. -/
structure Core where
  machine : Machine
  pipeline : Pipeline := {}

/-- The pipeline as a diagram shows it: the number of the last cycle, and the slots. -/
structure Snapshot where
  cycle : Nat := 0
  slots : Slots := {}
  deriving DecidableEq, Repr, Inhabited

namespace Core

/-- The pipeline after the last cycle. -/
def snapshot (c : Core) : Snapshot :=
  { cycle := c.machine.counters.cycles - 1, slots := c.pipeline.slots }

/-- Empties the pipeline; the machine keeps its state. -/
def reset (c : Core) : Core := { c with pipeline := {} }

end Core

end FiveStage
