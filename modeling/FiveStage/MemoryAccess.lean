import FiveStage.Instruction.Basic
import FiveStage.Memory.Basic

/-!
# Loads and stores

The address of a load or store, the widening of a loaded value, and the access itself.
-/

namespace FiveStage

/-- A loaded value, widened as the minor opcode of the load asks: the signed loads narrower than a
word copy the sign bit, the others leave the value as it is. -/
def extendLoaded (f3 : Nat) (raw : Word) : Word :=
  match f3 with
  | 0 => (raw.setWidth 8).signExtend 64
  | 1 => (raw.setWidth 16).signExtend 64
  | 2 => (raw.setWidth 32).signExtend 64
  | _ => raw

namespace Instruction

/-- The address of a load or store: the first operand plus the immediate. -/
def effectiveAddress (i : Instruction) : Word := i.op1 + i.imm

/-- The width of a load or store. -/
def width (i : Instruction) : Width := Width.ofFunct3 i.funct3

/-- The access of a load or store stays inside the memory. -/
def Fits (i : Instruction) (m : Memory) : Prop :=
  (i.flags.readsMem ∨ i.flags.writesMem) → m.Contains i.memAddress i.width.bytes

instance (i : Instruction) (m : Memory) : Decidable (i.Fits m) :=
  inferInstanceAs (Decidable (_ → _))

/-- The value an access yields: what a load reads, and zero for any other instruction. -/
def loaded (i : Instruction) (m : Memory) : Word :=
  if i.flags.readsMem then extendLoaded i.funct3 (m.value i.memAddress i.width.bytes) else 0

/-- The memory after an access: a store replaces the bytes at its address by the low bytes of its
second operand. -/
def stored (i : Instruction) (m : Memory) : Memory :=
  if !i.flags.readsMem && i.flags.writesMem then
    m.write i.memAddress (toLittleEndian i.width.bytes i.op2.toNat)
  else m

/-- The error of an access that does not fit. -/
def accessError (i : Instruction) : MemoryError := .outOfBounds i.memAddress i.width.bytes

/-- The access of a load or store. Other instructions leave the memory alone and yield zero. -/
def access (i : Instruction) (m : Memory) : Except MemoryError (Word × Memory) :=
  if i.Fits m then .ok (i.loaded m, i.stored m) else .error i.accessError

end Instruction

end FiveStage
