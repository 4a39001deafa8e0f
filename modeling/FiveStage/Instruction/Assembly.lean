import FiveStage.Instruction.Opcode
import FiveStage.Instruction.RegisterName
import FiveStage.Text.Numeral

/-!
# Assembly text

The mnemonic of a word and its rendering as assembly, with register names of the calling convention
and decimal immediates.
-/

namespace FiveStage

namespace Opcode

/-- The mnemonic that the function bits select within a class. -/
def mnemonic? (o : Opcode) (f3 f7 : Nat) : Option String :=
  match o, f3 with
  | op, 0 => if f7 = 0x20 then some "sub" else if f7 = 0 then some "add" else none
  | op, 1 => if f7 = 0 then some "sll" else none
  | op, 2 => if f7 = 0 then some "slt" else none
  | op, 3 => if f7 = 0 then some "sltu" else none
  | op, 4 => if f7 = 0 then some "xor" else none
  | op, 5 => if f7 = 0x20 then some "sra" else if f7 = 0 then some "srl" else none
  | op, 6 => if f7 = 0 then some "or" else none
  | op, 7 => if f7 = 0 then some "and" else none
  | op32, 0 => if f7 = 0x20 then some "subw" else if f7 = 0 then some "addw" else none
  | op32, 1 => if f7 = 0 then some "sllw" else none
  | op32, 5 => if f7 = 0x20 then some "sraw" else if f7 = 0 then some "srlw" else none
  | opImm, 0 => some "addi"
  | opImm, 1 => if f7 / 2 = 0 then some "slli" else none
  | opImm, 2 => some "slti"
  | opImm, 3 => some "sltiu"
  | opImm, 4 => some "xori"
  | opImm, 5 => if f7 / 2 = 0 then some "srli" else if f7 / 2 = 0x10 then some "srai" else none
  | opImm, 6 => some "ori"
  | opImm, 7 => some "andi"
  | opImm32, 0 => some "addiw"
  | opImm32, 1 => if f7 = 0 then some "slliw" else none
  | opImm32, 5 => if f7 = 0 then some "srliw" else if f7 = 0x20 then some "sraiw" else none
  | load, 0 => some "lb"
  | load, 1 => some "lh"
  | load, 2 => some "lw"
  | load, 3 => some "ld"
  | load, 4 => some "lbu"
  | load, 5 => some "lhu"
  | load, 6 => some "lwu"
  | store, 0 => some "sb"
  | store, 1 => some "sh"
  | store, 2 => some "sw"
  | store, 3 => some "sd"
  | branch, 0 => some "beq"
  | branch, 1 => some "bne"
  | branch, 4 => some "blt"
  | branch, 5 => some "bge"
  | branch, 6 => some "bltu"
  | branch, 7 => some "bgeu"
  | jalr, 0 => some "jalr"
  | jal, _ => some "jal"
  | lui, _ => some "lui"
  | auipc, _ => some "auipc"
  | _, _ => none

end Opcode

namespace InstWord

/-- The mnemonic of a word; none when it is no instruction. -/
def mnemonic? (w : InstWord) : Option String :=
  match Opcode.ofCode? w.opcode with
  | some o => o.mnemonic? w.funct3 w.funct7
  | none => none

/-- The operands of a word of a given class, as assembly writes them. -/
def operands (w : InstWord) (o : Opcode) : String :=
  let rd := registerName w.rd
  let rs1 := registerName w.rs1
  let rs2 := registerName w.rs2
  match o with
  | .op | .op32 => rd ++ ", " ++ rs1 ++ ", " ++ rs2
  | .opImm | .opImm32 =>
    let amount :=
      if w.funct3 = 1 ∨ w.funct3 = 5 then Text.decimal (w.immI.toNat % 64)
      else Text.signedDecimal w.immI.toInt
    rd ++ ", " ++ rs1 ++ ", " ++ amount
  | .load | .jalr => rd ++ ", " ++ Text.signedDecimal w.immI.toInt ++ "(" ++ rs1 ++ ")"
  | .store => rs2 ++ ", " ++ Text.signedDecimal w.immS.toInt ++ "(" ++ rs1 ++ ")"
  | .branch => rs1 ++ ", " ++ rs2 ++ ", " ++ Text.signedDecimal w.immB.toInt
  | .jal => rd ++ ", " ++ Text.signedDecimal w.immJ.toInt
  | .lui | .auipc => rd ++ ", " ++ Text.hex (w.extractLsb' 12 20).toNat

/-- A word as assembly text. The halt word, the no-op and a word that is no instruction have texts
of their own. -/
def assembly (w : InstWord) : String :=
  if w = halt then "HALT"
  else if w = nop then "NOP"
  else
    match Opcode.ofCode? w.opcode, w.mnemonic? with
    | some o, some m => m ++ " " ++ w.operands o
    | _, _ => "ILLEGAL"

end InstWord

end FiveStage
