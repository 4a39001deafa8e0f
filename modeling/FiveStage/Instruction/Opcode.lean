import FiveStage.Instruction.Fields

/-!
# Major opcodes

The eleven major opcodes of the base integer set, the format of each, the encodings each accepts
and the flags a decoded instruction of its class carries.
-/

namespace FiveStage

/-- The classes of instructions. -/
inductive Opcode
  | load
  | opImm
  | auipc
  | opImm32
  | store
  | op
  | lui
  | op32
  | branch
  | jalr
  | jal
  deriving DecidableEq, Repr

/-- The layouts of the immediate in an instruction word; `R` has none. -/
inductive Format
  | R | I | S | B | U | J
  deriving DecidableEq, Repr

/-- What a decoded instruction does; the later stages act on these flags alone. -/
structure Flags where
  legal : Bool := false
  halt : Bool := false
  nop : Bool := false
  readsMem : Bool := false
  writesMem : Bool := false
  arithLogic : Bool := false
  writesRd : Bool := false
  readsRs1 : Bool := false
  readsRs2 : Bool := false
  deriving DecidableEq, Repr, Inhabited

namespace Opcode

/-- The seven bits that stand for a major opcode. -/
def code : Opcode → Nat
  | load => 0x03
  | opImm => 0x13
  | auipc => 0x17
  | opImm32 => 0x1B
  | store => 0x23
  | op => 0x33
  | lui => 0x37
  | op32 => 0x3B
  | branch => 0x63
  | jalr => 0x67
  | jal => 0x6F

/-- The major opcode with a given code, if it is one of the base integer set. -/
def ofCode? : Nat → Option Opcode
  | 0x03 => some load
  | 0x13 => some opImm
  | 0x17 => some auipc
  | 0x1B => some opImm32
  | 0x23 => some store
  | 0x33 => some op
  | 0x37 => some lui
  | 0x3B => some op32
  | 0x63 => some branch
  | 0x67 => some jalr
  | 0x6F => some jal
  | _ => none

/-- The format of the instructions of a class. -/
def format : Opcode → Format
  | op | op32 => .R
  | opImm | opImm32 | load | jalr => .I
  | store => .S
  | branch => .B
  | lui | auipc => .U
  | jal => .J

/-- The encodings of a class that are instructions, by minor opcode and upper function bits. The
immediate shifts of 64 bits have a six-bit amount, so only the upper six function bits select
them. -/
def accepts (o : Opcode) (f3 f7 : Nat) : Bool :=
  match o with
  | op => if f3 = 0 ∨ f3 = 5 then f7 = 0x00 ∨ f7 = 0x20 else f7 = 0x00
  | op32 =>
    if f3 = 0 ∨ f3 = 5 then f7 = 0x00 ∨ f7 = 0x20 else decide (f3 = 1 ∧ f7 = 0x00)
  | opImm =>
    if f3 = 1 then f7 / 2 = 0x00
    else if f3 = 5 then f7 / 2 = 0x00 ∨ f7 / 2 = 0x10
    else true
  | opImm32 =>
    if f3 = 0 then true
    else if f3 = 1 then f7 = 0x00
    else decide (f3 = 5 ∧ (f7 = 0x00 ∨ f7 = 0x20))
  | load => f3 ≤ 6
  | store => f3 ≤ 3
  | branch => f3 ≠ 2 ∧ f3 ≠ 3
  | jalr => f3 = 0
  | jal | lui | auipc => true

/-- The flags of the instructions of a class. -/
def flags : Opcode → Flags
  | op | op32 =>
    { legal := true, arithLogic := true, writesRd := true, readsRs1 := true, readsRs2 := true }
  | opImm | opImm32 | jalr =>
    { legal := true, arithLogic := true, writesRd := true, readsRs1 := true }
  | load => { legal := true, readsMem := true, writesRd := true, readsRs1 := true }
  | store => { legal := true, writesMem := true, readsRs1 := true, readsRs2 := true }
  | branch => { legal := true, readsRs1 := true, readsRs2 := true }
  | jal | lui | auipc => { legal := true, arithLogic := true, writesRd := true }

end Opcode

/-- The immediate that a format lays out in a word; zero where there is none. -/
def Format.immediate : Format → InstWord → Word
  | .R, _ => 0
  | .I, w => w.immI
  | .S, w => w.immS
  | .B, w => w.immB
  | .U, w => w.immU
  | .J, w => w.immJ

end FiveStage
