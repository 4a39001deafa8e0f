/-!
# Blank characters

The Unicode property `White_Space`, the lines of a text and its blank-separated tokens.
-/

namespace FiveStage.Text

/-- Whether a character has the property `White_Space`. -/
def isBlank (c : Char) : Bool :=
  let n := c.toNat
  (0x09 ≤ n && n ≤ 0x0d) || n == 0x20 || n == 0x85 || n == 0xa0 || n == 0x1680 ||
    (0x2000 ≤ n && n ≤ 0x200a) || n == 0x2028 || n == 0x2029 || n == 0x202f || n == 0x205f ||
    n == 0x3000

/-- A text without the blanks at its two ends. -/
def trim (s : List Char) : List Char :=
  ((s.dropWhile isBlank).reverse.dropWhile isBlank).reverse

/-- The pieces of a text between the occurrences of a separator; one more than it has separators. -/
def splitOn (sep : Char) : List Char → List (List Char)
  | [] => [[]]
  | c :: rest =>
    if c = sep then [] :: splitOn sep rest
    else
      match splitOn sep rest with
      | [] => [[c]]
      | piece :: pieces => (c :: piece) :: pieces

/-- The lines of a text. A carriage return counts as a character of its line. -/
def lines (s : List Char) : List (List Char) := splitOn '\n' s

/-- The tokens of a line: the longest runs without a blank, given the token that is being read. -/
def tokensAfter (token : List Char) : List Char → List (List Char)
  | [] => if token.isEmpty then [] else [token]
  | c :: rest =>
    if isBlank c then
      if token.isEmpty then tokensAfter [] rest else token :: tokensAfter [] rest
    else tokensAfter (token ++ [c]) rest

/-- The longest runs of characters without a blank, in order. -/
def tokens (s : List Char) : List (List Char) := tokensAfter [] s

end FiveStage.Text
