import FiveStage.Instruction.Basic

/-!
# Branches and jumps

The comparison of a branch and the address of the instruction that follows in program order.
-/

namespace FiveStage

/-- Whether a branch with a given minor opcode is taken. The two unassigned codes never are. -/
def branchTaken (f3 : Nat) (a b : Word) : Bool :=
  match f3 with
  | 0 => a = b
  | 1 => a ≠ b
  | 4 => a.slt b
  | 5 => !a.slt b
  | 6 => a.ult b
  | 7 => !a.ult b
  | _ => false

/-- The address that follows an instruction in program order, from its present operands. -/
def Instruction.successor (i : Instruction) : Word :=
  if i.flags.legal then
    match i.class? with
    | some .jal => i.pc + i.imm
    | some .jalr => (i.op1 + i.imm) &&& ~~~1
    | some .branch => if branchTaken i.funct3 i.op1 i.op2 then i.pc + i.imm else i.fallThrough
    | _ => i.fallThrough
  else i.fallThrough

end FiveStage
