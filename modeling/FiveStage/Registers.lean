import FiveStage.Word

/-!
# The register file

Thirty-two integer registers. Register 0 reads as zero and ignores writes, so only the other
thirty-one are stored.
-/

namespace FiveStage

/-- The number of registers, register 0 included. -/
def registerCount : Nat := 32

/-- The values of registers 1 to 31. -/
structure Registers where
  values : Vector Word 31
  deriving DecidableEq

namespace Registers

/-- All registers zero. -/
def zero : Registers := ⟨Vector.replicate 31 0⟩

/-- The value of a register; zero for register 0 and for a number that names no register. -/
def read (r : Registers) (i : Nat) : Word :=
  if i = 0 then 0 else r.values[i - 1]?.getD 0

/-- Sets a register. A write to register 0, or to a number that names no register, changes
nothing. -/
def write (r : Registers) (i : Nat) (v : Word) : Registers :=
  if i = 0 then r else ⟨r.values.setIfInBounds (i - 1) v⟩

end Registers

end FiveStage
