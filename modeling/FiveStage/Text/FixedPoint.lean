import FiveStage.Text.Numeral

/-!
# Fixed-point numerals

A number written with a fixed count of decimals: its exact value is rounded to the nearest such
numeral, and a value halfway between two of them goes to the one with the even last digit.
-/

namespace FiveStage.Text

/-- The integer nearest to the quotient of two naturals; halfway, the even one. -/
def roundHalfEven (num den : Nat) : Nat :=
  let q := num / den
  let r := num % den
  if 2 * r < den then q
  else if den < 2 * r then q + 1
  else if q % 2 = 0 then q else q + 1

/-- The numeral of `units` parts of a whole that has as many of them as 1 followed by `places`
zeros. -/
def pointed (places units : Nat) : String :=
  let whole := Nat.pow 10 places
  decimal (units / whole) ++ "." ++ padLeft places '0' (decimal (units % whole))

/-- The significand and the exponent of a non-negative finite double: its value is the significand
times two to the exponent. -/
def significand (x : Float) : Nat × Int :=
  let bits := x.toBits.toNat
  let hiddenBit : Nat := 0x10000000000000
  let fraction := bits % hiddenBit
  let exponent := (bits >>> 52) % 0x800
  if exponent = 0 then (fraction, -1074) else (fraction + hiddenBit, (exponent : Int) - 1075)

/-- A non-negative finite double with a fixed count of decimals. -/
def fixedPoint (places : Nat) (x : Float) : String :=
  let (m, e) := significand x
  match e with
  | .ofNat k => pointed places ((m <<< k) * Nat.pow 10 places)
  | .negSucc k => pointed places (roundHalfEven (m * Nat.pow 10 places) (1 <<< (k + 1)))

end FiveStage.Text
