/-!
# Numerals and columns

Decimal and hexadecimal numerals, and text set flush left or right in a column.
-/

namespace FiveStage.Text

/-- The decimal numeral of a number. -/
def decimal (n : Nat) : String := String.ofList (Nat.toDigits 10 n)

/-- The decimal numeral of an integer, with a minus sign for a negative one. -/
def signedDecimal : Int → String
  | .ofNat n => decimal n
  | .negSucc n => "-" ++ decimal (n + 1)

/-- The lowercase hexadecimal digits of a number. -/
def hexDigits (n : Nat) : String := String.ofList (Nat.toDigits 16 n)

/-- The hexadecimal numeral of a number, as in 0x1f. -/
def hex (n : Nat) : String := "0x" ++ hexDigits n

/-- A text moved to the right end of a column by characters in front of it. A longer text is kept
whole. -/
def padLeft (width : Nat) (fill : Char) (s : String) : String :=
  String.ofList (List.replicate (width - s.length) fill) ++ s

/-- A text at the left end of a column of blanks. A longer text is kept whole. -/
def padRight (width : Nat) (s : String) : String :=
  s ++ String.ofList (List.replicate (width - s.length) ' ')

/-- Hexadecimal digits with zeros in front up to a least number of digits. -/
def hexPadded (width n : Nat) : String := padLeft width '0' (hexDigits n)

end FiveStage.Text
