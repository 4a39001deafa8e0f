import FiveStage.Text.Numeral

/-!
# Access widths

A memory access moves one, two, four or eight bytes.
-/

namespace FiveStage

/-- The width of a memory access. -/
inductive Width
  | byte | half | word | double
  deriving DecidableEq, Repr

namespace Width

/-- The number of bytes an access moves. -/
def bytes : Width → Nat
  | byte => 1
  | half => 2
  | word => 4
  | double => 8

/-- The width that moves a given number of bytes. -/
def ofBytes? : Nat → Option Width
  | 1 => some byte
  | 2 => some half
  | 4 => some word
  | 8 => some double
  | _ => none

/-- The width of a load or store, from the low two bits of its minor opcode. -/
def ofFunct3 (f3 : Nat) : Width :=
  match f3 % 4 with
  | 0 => byte
  | 1 => half
  | 2 => word
  | _ => double

/-- A width in words, as in "4-byte". -/
def describe (w : Width) : String := Text.decimal w.bytes ++ "-byte"

end Width

end FiveStage
