import FiveStage.Arithmetic
import FiveStage.Branch
import FiveStage.Instruction.Decode
import FiveStage.Machine.Basic
import FiveStage.MemoryAccess

/-!
# Functional execution

One instruction at a time and to its end: fetch, decode, operands, successor, result, memory access,
commit. An instruction that cannot complete leaves registers, memory and program counter alone.
-/

namespace FiveStage

/-- How one functional step ends. -/
inductive StepEnd
  /-- the instruction has taken effect -/
  | completed
  /-- the halt word -/
  | halted
  /-- an illegal instruction or a memory fault -/
  | failed
  deriving DecidableEq, Repr

namespace Instruction

/-- The instruction with its successor and its result filled in. -/
def withResults (i : Instruction) : Instruction :=
  { i with
    nextPc := i.successor
    arithResult := if i.flags.arithLogic then i.compute else i.arithResult }

/-- The instruction with the address of its access filled in. -/
def withAddress (i : Instruction) : Instruction :=
  if i.flags.readsMem || i.flags.writesMem then { i with memAddress := i.effectiveAddress } else i

/-- How a step that ran the instruction has ended. -/
def stepEnd (i : Instruction) : StepEnd :=
  if !i.flags.legal || i.memFault then .failed
  else if i.flags.halt then .halted
  else .completed

end Instruction

namespace Machine

/-- The instruction at the program counter, decoded and numbered. -/
def current (m : Machine) : Instruction :=
  { decode m.pc (m.fetchWord m.pc) with id := m.nextId }

/-- The machine after an instruction has been numbered and counted. -/
def counted (m : Machine) : Machine :=
  { m with
    nextId := m.nextId + 1
    counters := { m.counters with instructions := m.counters.instructions + 1 } }

/-- The machine with one more exception counted. -/
def countException (m : Machine) : Machine :=
  { m with counters := { m.counters with exceptions := m.counters.exceptions + 1 } }

/-- The memory access of an instruction, the commit of its result and the move to its successor, or
the fault of an access that does not fit. -/
def complete (m : Machine) (i : Instruction) : Instruction × Machine :=
  if i.flags.readsMem || i.flags.writesMem then
    if i.Fits m.memory then
      let i := { i with memResult := i.loaded m.memory }
      (i, { m with regs := i.commit m.regs, pc := i.nextPc, memory := i.stored m.memory })
    else ({ i with memFault := true }, m.countException)
  else (i, { m with regs := i.commit m.regs, pc := i.nextPc })

/-- Runs the instruction at the program counter to its end. An illegal instruction, the halt word
and a failing access leave the program counter where it is. -/
def step (m : Machine) : Instruction × Machine :=
  let i := m.current
  let m := m.counted
  if !i.flags.legal then (i, m.countException)
  else if i.flags.halt then (i, m)
  else m.complete (i.withOperands m.regs).withResults.withAddress

/-- Runs at most `n` instructions, until one halts or fails. -/
def runSteps : Nat → Machine → RunStatus × Machine
  | 0, m => (.success, m)
  | n + 1, m =>
    let (i, m) := m.step
    match i.stepEnd with
    | .completed => runSteps n m
    | .halted => (.halt, m)
    | .failed => (.exception, m)

end Machine

/-- The steps or cycles a budget stands for: zero asks to run until the program ends, for which no
count of 64 bits is too large. -/
def budgetLimit (n : Nat) : Nat := if n = 0 then 0x10000000000000000 else n

/-- Runs the functional model for a budget of instructions; zero runs until the program ends. -/
def Machine.runInstructions (m : Machine) (budget : Nat) : RunStatus × Machine :=
  runSteps (budgetLimit budget) m

end FiveStage
