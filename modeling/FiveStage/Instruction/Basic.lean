import FiveStage.Instruction.Opcode

/-!
# Instructions in flight

An `Instruction` is what a pipeline slot holds: the fields of a word, the flags of its class and the
values the stages fill in as it moves on. Slots that hold no work of their own are instructions of
another status.
-/

namespace FiveStage

/-- What occupies a slot. -/
inductive SlotStatus
  /-- work that will take effect -/
  | normal
  /-- put in by a stall -/
  | bubble
  /-- never filled -/
  | idle
  /-- fetched behind a jump, branch or exception that redirects fetch or may do so -/
  | speculative
  /-- fetched on a wrong path and thrown away -/
  | squashed
  deriving DecidableEq, Repr, Inhabited

/-- The remark after a slot in a pipeline diagram. -/
def SlotStatus.label : SlotStatus → String
  | .normal => " "
  | .bubble => " (bubble) "
  | .idle => " (idle) "
  | .speculative => " (spcu) "
  | .squashed => " (squashed) "

/-- An instruction as it occupies a slot. -/
structure Instruction where
  /-- the address the word was fetched from -/
  pc : Word := 0
  /-- the instruction word -/
  raw : InstWord := 0
  opcode : Nat := 0
  funct3 : Nat := 0
  funct7 : Nat := 0
  rd : Nat := 0
  rs1 : Nat := 0
  rs2 : Nat := 0
  /-- the immediate, widened by its sign -/
  imm : Word := 0
  flags : Flags := {}
  /-- the value of the first source register -/
  op1 : Word := 0
  /-- the value of the second source register -/
  op2 : Word := 0
  /-- the result of the arithmetic unit; for a jump, the return address -/
  arithResult : Word := 0
  /-- the address of a load or store -/
  memAddress : Word := 0
  /-- the value a load has read -/
  memResult : Word := 0
  /-- the address of the instruction that follows in program order -/
  nextPc : Word := 0
  /-- whether the load or store left the memory -/
  memFault : Bool := false
  /-- the number given to the instruction when it was decoded -/
  id : Nat := 0
  status : SlotStatus := .idle
  deriving DecidableEq, Repr, Inhabited

namespace Instruction

/-- A slot that has never held work. -/
def idle : Instruction := {}

/-- What a stall puts into a slot. -/
def bubble : Instruction := { status := .bubble }

/-- A word that has been fetched and not decoded yet. -/
def fetched (pc : Word) (raw : InstWord) (status : SlotStatus) : Instruction :=
  { pc, raw, status }

/-- A wrong-path instruction turned into a no-op that keeps its address and its word. -/
def squash (i : Instruction) : Instruction :=
  { pc := i.pc, raw := i.raw, status := .squashed }

/-- Whether the instruction is work that will take effect. -/
def isLive (i : Instruction) : Bool := i.status = .normal

/-- Whether the slot holds a fetched word, be it speculative or not. -/
def isFetched (i : Instruction) : Bool := i.status = .normal || i.status = .speculative

/-- A legal load. -/
def isLoad (i : Instruction) : Bool := i.flags.legal && i.flags.readsMem

/-- A legal store. -/
def isStore (i : Instruction) : Bool := i.flags.legal && i.flags.writesMem

/-- The class of the instruction, by its opcode field. -/
def class? (i : Instruction) : Option Opcode := Opcode.ofCode? i.opcode

/-- A legal branch or jump. -/
def isControl (i : Instruction) : Bool :=
  i.flags.legal &&
    (i.class? = some .branch || i.class? = some .jal || i.class? = some .jalr)

/-- A legal branch or jump whose target depends on registers. -/
def needsOperands (i : Instruction) : Bool :=
  i.flags.legal && (i.class? = some .branch || i.class? = some .jalr)

/-- The address of the next word in memory. -/
def fallThrough (i : Instruction) : Word := i.pc + .ofNat 64 instructionBytes

/-- The register the instruction will write when it completes, if any. Register 0 does not count,
nor does the target of a load that has failed. -/
def dest (i : Instruction) : Option Nat :=
  if i.isLive && i.flags.legal && i.flags.writesRd && i.rd ≠ 0 && !i.memFault then some i.rd
  else none

/-- The value written to the destination: what a load has read, else the arithmetic result. -/
def result (i : Instruction) : Word :=
  if i.flags.readsMem then i.memResult else i.arithResult

/-- Whether a register is one of the sources. -/
def reads (i : Instruction) (r : Nat) : Bool :=
  (i.flags.readsRs1 && i.rs1 = r) || (i.flags.readsRs2 && i.rs2 = r)

end Instruction

end FiveStage
