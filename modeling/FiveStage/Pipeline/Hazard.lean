import FiveStage.Instruction.Basic

/-!
# Data hazards

When an instruction has to wait for the result of an older one, and when it can be given that result
before it is in the register file.
-/

namespace FiveStage

/-- Where a forwarded result comes from. -/
inductive ForwardSource
  /-- the instruction that has just passed the memory stage; a loaded value is not ready there -/
  | memory
  /-- the instruction that has just retired -/
  | writeback
  deriving DecidableEq, Repr

/-- Whether the decoded instruction needs the value of a load that has just passed the memory stage.
A store waits for its address register alone, since its data is refreshed later; branches and jumps
wait in a way of their own. -/
def loadUseHazard (mem id : Instruction) : Bool :=
  id.isLive && !id.isControl && mem.isLoad &&
    match mem.dest with
    | some rd => if id.isStore then id.flags.readsRs1 && id.rs1 = rd else id.reads rd
    | none => false

/-- Whether a producer holds up a branch or jump: it writes a register the branch reads, and it is a
load if only loads count. -/
def blocksControl (id producer : Instruction) (loadsOnly : Bool) : Bool :=
  match producer.dest with
  | some rd => id.reads rd && (!loadsOnly || producer.isLoad)
  | none => false

/-- Whether the operands of a branch or jump can all be had: none is the result of the instruction
executed in this cycle, or of a load that has just passed the memory stage. -/
def controlReady (id ex mem : Instruction) : Bool :=
  !blocksControl id ex false && !blocksControl id mem true

namespace Instruction

/-- The register whose value a producer can hand on from a given place. -/
def forwards? (producer : Instruction) (source : ForwardSource) : Option Nat :=
  if source = .memory && producer.isLoad then none else producer.dest

/-- Whether an operand is replaced when a producer forwards its result. -/
def accepts (i producer : Instruction) (source : ForwardSource) : Bool :=
  match producer.forwards? source with
  | some rd => i.isLive && i.reads rd
  | none => false

/-- The instruction with its operands refreshed from a producer. -/
def forward (i producer : Instruction) (source : ForwardSource) : Instruction :=
  match producer.forwards? source with
  | some rd =>
    if i.isLive then
      { i with
        op1 := if i.flags.readsRs1 && i.rs1 = rd then producer.result else i.op1
        op2 := if i.flags.readsRs2 && i.rs2 = rd then producer.result else i.op2 }
    else i
  | none => i

/-- Whether the data of a store is the result of the instruction that has just retired. -/
def acceptsStoreData (i wb : Instruction) : Bool :=
  i.isLive && i.isStore && wb.dest = some i.rs2

/-- The instruction with the data of a store refreshed from the instruction that has just
retired. -/
def forwardStoreData (i wb : Instruction) : Instruction :=
  if i.acceptsStoreData wb then { i with op2 := wb.result } else i

end Instruction

end FiveStage
