import FiveStage.Instruction.Basic

/-!
# The arithmetic unit

The ten integer operations in their 64-bit and their word form, and the result each class of
instruction takes from them.
-/

namespace FiveStage

/-- The operations of the arithmetic unit. -/
inductive ArithOp
  | add | sub | sll | slt | sltu | xor | srl | sra | or | and
  deriving DecidableEq, Repr

namespace ArithOp

/-- The operation a minor opcode selects. The flag chooses subtraction and the arithmetic right
shift and is ignored elsewhere. -/
def ofFunct3 (f3 : Nat) (alternate : Bool) : ArithOp :=
  match f3 with
  | 0 => if alternate then sub else add
  | 1 => sll
  | 2 => slt
  | 3 => sltu
  | 4 => xor
  | 5 => if alternate then sra else srl
  | 6 => or
  | _ => and

/-- A shift of 64 bits by the low six bits of the amount, or of the low half of the word by the low
five, widened again by its sign. Zero for an operation that is no shift. -/
def shift (op : ArithOp) (a b : Word) (word32 : Bool) : Word :=
  if word32 then
    let low : BitVec 32 := a.setWidth 32
    let amount := b.toNat % 32
    match op with
    | sll => (low <<< amount).signExtend 64
    | srl => (low >>> amount).signExtend 64
    | sra => (low.sshiftRight amount).signExtend 64
    | _ => 0
  else
    let amount := b.toNat % 64
    match op with
    | sll => a <<< amount
    | srl => a >>> amount
    | sra => a.sshiftRight amount
    | _ => 0

/-- The operation on two operands. The word form works on the low halves and widens the result by
its sign. -/
def compute (op : ArithOp) (a b : Word) (word32 : Bool) : Word :=
  let narrow (full : Word) : Word := if word32 then full.signExtendLow else full
  match op with
  | add => narrow (a + b)
  | sub => narrow (a - b)
  | slt => narrow (Word.ofCondition (a.slt b))
  | sltu => narrow (Word.ofCondition (a.ult b))
  | xor => narrow (a ^^^ b)
  | or => narrow (a ||| b)
  | and => narrow (a &&& b)
  | sll | srl | sra => op.shift a b word32

end ArithOp

namespace Instruction

/-- The arithmetic result of an instruction from its operands and its immediate: the selected
operation, the return address of a jump, or an upper immediate. Zero for the other classes. -/
def compute (i : Instruction) : Word :=
  match i.class? with
  | some .op => (ArithOp.ofFunct3 i.funct3 i.raw.alternate).compute i.op1 i.op2 false
  | some .op32 => (ArithOp.ofFunct3 i.funct3 i.raw.alternate).compute i.op1 i.op2 true
  | some .opImm =>
    (ArithOp.ofFunct3 i.funct3 (i.raw.alternate && i.funct3 = 5)).compute i.op1 i.imm false
  | some .opImm32 =>
    (ArithOp.ofFunct3 i.funct3 (i.raw.alternate && i.funct3 = 5)).compute i.op1 i.imm true
  | some .jal | some .jalr => i.fallThrough
  | some .lui => i.imm
  | some .auipc => i.pc + i.imm
  | _ => 0

end Instruction

end FiveStage
