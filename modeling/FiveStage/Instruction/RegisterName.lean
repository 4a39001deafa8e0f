import FiveStage.Registers
import FiveStage.Text.Unsigned

/-!
# Register names

The calling-convention names of the registers, and the register a name stands for.
-/

namespace FiveStage

/-- The names of registers 0 to 31 in the calling convention. -/
def registerNames : List String :=
  ["zero", "ra", "sp", "gp", "tp", "t0", "t1", "t2", "s0", "s1", "a0", "a1", "a2", "a3", "a4",
    "a5", "a6", "a7", "s2", "s3", "s4", "s5", "s6", "s7", "s8", "s9", "s10", "s11", "t3", "t4",
    "t5", "t6"]

/-- The name of a register; a mark for a number that names none. -/
def registerName (i : Nat) : String := registerNames[i]?.getD "x??"

/-- The register a name stands for: a name of the calling convention, the frame pointer, or `x` and
the number of the register. -/
def registerIndex? (name : String) : Option Nat :=
  if name = "fp" then some 8
  else
    match registerNames.idxOf? name with
    | some i => some i
    | none =>
      match name.toList with
      | 'x' :: digits =>
        match Text.readUnsigned 10 digits with
        | .ok n => if n < registerCount then some n else none
        | .error _ => none
      | _ => none

end FiveStage
