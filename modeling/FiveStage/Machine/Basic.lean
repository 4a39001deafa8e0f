import FiveStage.Cache.Basic
import FiveStage.Config.Basic
import FiveStage.Instruction.Basic
import FiveStage.Registers
import FiveStage.Stats

/-!
# The machine

Everything an instruction can read or change: registers, program counter, memory, the two caches,
and what the run counts.
-/

namespace FiveStage

/-- How a run stands. -/
inductive RunStatus
  /-- the run can go on -/
  | success
  /-- the halt word has completed and nothing had gone wrong -/
  | halt
  /-- an illegal instruction or a memory fault has ended the run -/
  | exception
  deriving DecidableEq, Repr, Inhabited

namespace RunStatus

/-- The run cannot go on. -/
def isTerminal : RunStatus → Bool
  | success => false
  | halt | exception => true

/-- The exit code of a process for a run. -/
def exitCode : RunStatus → UInt8
  | success | halt => 0
  | exception => 1

/-- A status as reports name it. -/
def describe : RunStatus → String
  | success => "SUCCESS"
  | halt => "HALT"
  | exception => "EXCEPTION"

end RunStatus

/-- The state an instruction acts on. -/
structure Machine where
  regs : Registers
  /-- the address of the next fetch -/
  pc : Word
  memory : Memory
  icache : Cache
  dcache : Cache
  counters : Counters := {}
  /-- the number of the next instruction to be decoded -/
  nextId : Nat := 0

namespace Machine

/-- A machine about to run the program in a memory, if both caches can be built. -/
def build (c : Config) (memory : Memory) : Except ConfigError Machine :=
  match Cache.build Config.instructionCacheName c.instructionCache with
  | .error e => .error e
  | .ok icache =>
    match Cache.build Config.dataCacheName c.dataCache with
    | .error e => .error e
    | .ok dcache => .ok { regs := .zero, pc := c.startPc, memory, icache, dcache }

/-- The counters of the machine and of its caches. -/
def stats (m : Machine) : Stats :=
  { m.counters with
    icacheHits := m.icache.hits
    icacheMisses := m.icache.misses
    dcacheHits := m.dcache.hits
    dcacheMisses := m.dcache.misses }

/-- The word at an address; zero, which is no instruction, outside the memory. -/
def fetchWord (m : Machine) (pc : Word) : InstWord :=
  if m.memory.Contains pc 4 then (m.memory.value pc 4).setWidth 32 else 0

end Machine

namespace Instruction

/-- The instruction with the values of the registers it reads. -/
def withOperands (i : Instruction) (regs : Registers) : Instruction :=
  { i with
    op1 := if i.flags.readsRs1 then regs.read i.rs1 else i.op1
    op2 := if i.flags.readsRs2 then regs.read i.rs2 else i.op2 }

/-- The registers after an instruction has completed. -/
def commit (i : Instruction) (regs : Registers) : Registers :=
  match i.dest with
  | some rd => regs.write rd i.result
  | none => regs

end Instruction

end FiveStage
