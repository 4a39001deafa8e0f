import FiveStage.Word

/-!
# Fields of an instruction word

The fixed fields every format shares, the immediates of the five formats that carry one, and the
two words with a meaning of their own: the halt word and the canonical no-op.
-/

namespace FiveStage

/-- The length of an instruction in bytes. -/
def instructionBytes : Nat := 4

namespace InstWord

/-- The word that ends a program when it completes. -/
def halt : InstWord := 0xFEEDFEED

/-- The canonical no-op, which adds 0 to register 0. -/
def nop : InstWord := 0x00000013

/-- Major opcode, bits 6 to 0. -/
def opcode (w : InstWord) : Nat := (w.extractLsb' 0 7).toNat

/-- Destination register, bits 11 to 7. -/
def rd (w : InstWord) : Nat := (w.extractLsb' 7 5).toNat

/-- Minor opcode, bits 14 to 12. -/
def funct3 (w : InstWord) : Nat := (w.extractLsb' 12 3).toNat

/-- First source register, bits 19 to 15. -/
def rs1 (w : InstWord) : Nat := (w.extractLsb' 15 5).toNat

/-- Second source register, bits 24 to 20. -/
def rs2 (w : InstWord) : Nat := (w.extractLsb' 20 5).toNat

/-- Upper function bits, bits 31 to 25. -/
def funct7 (w : InstWord) : Nat := (w.extractLsb' 25 7).toNat

/-- The bit that tells subtraction from addition and an arithmetic from a logical right shift. -/
def alternate (w : InstWord) : Bool := w.getLsbD 30

/-- I format: bits 31 to 20. -/
def immI (w : InstWord) : Word := (w.extractLsb' 20 12).signExtend 64

/-- S format: bits 31 to 25, then bits 11 to 7. -/
def immS (w : InstWord) : Word := (w.extractLsb' 25 7 ++ w.extractLsb' 7 5).signExtend 64

/-- B format: bit 31, bit 7, bits 30 to 25, bits 11 to 8, then a zero. -/
def immB (w : InstWord) : Word :=
  (w.extractLsb' 31 1 ++ w.extractLsb' 7 1 ++ w.extractLsb' 25 6 ++ w.extractLsb' 8 4
    ++ 0#1).signExtend 64

/-- U format: bits 31 to 12, then twelve zeros. -/
def immU (w : InstWord) : Word := (w.extractLsb' 12 20 ++ 0#12).signExtend 64

/-- J format: bit 31, bits 19 to 12, bit 20, bits 30 to 21, then a zero. -/
def immJ (w : InstWord) : Word :=
  (w.extractLsb' 31 1 ++ w.extractLsb' 12 8 ++ w.extractLsb' 20 1 ++ w.extractLsb' 21 10
    ++ 0#1).signExtend 64

end InstWord

end FiveStage
