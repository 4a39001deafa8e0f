/-!
# JSON documents

The values of a JSON document as far as settings need them. A string is kept as its sequence of code
points and surrogates: an escape may spell half of a surrogate pair, which is no text and is refused
only where text is asked for.
-/

namespace FiveStage

/-- A JSON value. -/
inductive Json
  | null
  | bool (b : Bool)
  /-- a number literal without sign, fraction and exponent -/
  | natural (n : Nat)
  /-- any other number literal -/
  | number
  | string (units : List Nat)
  | array (items : List Json)
  /-- the members in the order of the document, repeated names included -/
  | object (members : List (List Nat × Json))
  deriving Repr, Inhabited

namespace Json

/-- Whether a unit is the first half of a surrogate pair. -/
def isHighSurrogate (u : Nat) : Bool := 0xD800 ≤ u && u < 0xDC00

/-- Whether a unit is the second half of a surrogate pair. -/
def isLowSurrogate (u : Nat) : Bool := 0xDC00 ≤ u && u < 0xE000

/-- The characters that a string spells; none when it holds half of a surrogate pair. -/
def text? : List Nat → Option (List Char)
  | [] => some []
  | [u] =>
    if isHighSurrogate u || isLowSurrogate u then none else some [Char.ofNat u]
  | u :: v :: rest =>
    if isHighSurrogate u then
      if isLowSurrogate v then
        (text? rest).map (Char.ofNat (0x10000 + (u - 0xD800) * 0x400 + (v - 0xDC00)) :: ·)
      else none
    else if isLowSurrogate u then none
    else (text? (v :: rest)).map (Char.ofNat u :: ·)

end Json

end FiveStage
