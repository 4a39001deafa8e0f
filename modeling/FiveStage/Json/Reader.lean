import FiveStage.Json.Value

/-!
# Reading JSON

The grammar of JSON over characters. Nothing but blanks may follow the document. Nested values are
read by recursion on a bound that the length of the text provides, since every step consumes a
character.
-/

namespace FiveStage

namespace Json

/-- A blank between the tokens of a document. -/
def isSpace (c : Char) : Bool := c = ' ' || c = '\n' || c = '\t' || c = '\r'

/-- A text without the blanks at its start. -/
def skipSpace (s : List Char) : List Char := s.dropWhile isSpace

/-- The value of a hexadecimal digit. -/
def hexDigit? (c : Char) : Option Nat :=
  if '0' ≤ c ∧ c ≤ '9' then some (c.toNat - '0'.toNat)
  else if 'a' ≤ c ∧ c ≤ 'f' then some (c.toNat - 'a'.toNat + 10)
  else if 'A' ≤ c ∧ c ≤ 'F' then some (c.toNat - 'A'.toNat + 10)
  else none

/-- The value of four hexadecimal digits. -/
def unit? (a b c d : Char) : Option Nat :=
  match hexDigit? a, hexDigit? b, hexDigit? c, hexDigit? d with
  | some a, some b, some c, some d => some (a * 0x1000 + b * 0x100 + c * 0x10 + d)
  | _, _, _, _ => none

/-- The character a one-letter escape stands for. -/
def escape? (c : Char) : Option Nat :=
  if c = '"' then some 0x22
  else if c = '\\' then some 0x5C
  else if c = '/' then some 0x2F
  else if c = 'b' then some 0x08
  else if c = 'f' then some 0x0C
  else if c = 'n' then some 0x0A
  else if c = 'r' then some 0x0D
  else if c = 't' then some 0x09
  else none

/-- Reads a string behind its opening quote. Control characters have to be escaped. -/
def readString (units : List Nat) : List Char → Option (List Nat × List Char)
  | [] => none
  | '"' :: rest => some (units.reverse, rest)
  | '\\' :: 'u' :: a :: b :: c :: d :: rest =>
    match unit? a b c d with
    | some u => readString (u :: units) rest
    | none => none
  | '\\' :: c :: rest =>
    match escape? c with
    | some u => readString (u :: units) rest
    | none => none
  | c :: rest => if c.toNat < 0x20 then none else readString (c.toNat :: units) rest

/-- Whether a character is a decimal digit. -/
def isDigit (c : Char) : Bool := '0' ≤ c && c ≤ '9'

/-- The value of decimal digits. -/
def digitsValue (ds : List Char) : Nat := ds.foldl (fun n c => n * 10 + (c.toNat - '0'.toNat)) 0

/-- What follows the integer part of a number: nothing, a fraction, an exponent, or both. The flag
tells whether there is anything. -/
def readFraction (s : List Char) : Option (Bool × List Char) :=
  let exponent (marked : Bool) (s : List Char) : Option (Bool × List Char) :=
    match s with
    | c :: rest =>
      if c = 'e' || c = 'E' then
        let digits :=
          match rest with
          | '+' :: r => r
          | '-' :: r => r
          | r => r
        if (digits.takeWhile isDigit).isEmpty then none else some (true, digits.dropWhile isDigit)
      else some (marked, s)
    | [] => some (marked, [])
  match s with
  | '.' :: rest =>
    if (rest.takeWhile isDigit).isEmpty then none else exponent true (rest.dropWhile isDigit)
  | _ => exponent false s

/-- Reads a number whose sign, if any, has been read. A leading zero stands alone. -/
def readNumber (negative : Bool) (s : List Char) : Option (Json × List Char) :=
  let digits := s.takeWhile isDigit
  match digits with
  | [] => none
  | d :: more =>
    if d = '0' && !more.isEmpty then none
    else
      match readFraction (s.dropWhile isDigit) with
      | none => none
      | some (marked, rest) =>
        some (if negative || marked then number else natural (digitsValue digits), rest)

/-- A text behind a word it has to begin with. -/
def expect (word s : List Char) : Option (List Char) :=
  if word.isPrefixOf s then some (s.drop word.length) else none

mutual

/-- Reads a value, with a bound on the steps. -/
def readValue : Nat → List Char → Option (Json × List Char)
  | 0, _ => none
  | fuel + 1, s =>
    match skipSpace s with
    | [] => none
    | c :: rest =>
      if c = '"' then (readString [] rest).map fun (units, rest) => (string units, rest)
      else if c = '[' then
        match skipSpace rest with
        | ']' :: rest => some (array [], rest)
        | _ => readItems fuel [] rest
      else if c = '\x7b' then
        match skipSpace rest with
        | '\x7d' :: rest => some (object [], rest)
        | _ => readMembers fuel [] rest
      else if c = '-' then readNumber true rest
      else if isDigit c then readNumber false (c :: rest)
      else if c = 'n' then (expect ['u', 'l', 'l'] rest).map fun rest => (null, rest)
      else if c = 't' then (expect ['r', 'u', 'e'] rest).map fun rest => (bool true, rest)
      else if c = 'f' then (expect ['a', 'l', 's', 'e'] rest).map fun rest => (bool false, rest)
      else none

/-- Reads the items of an array that has at least one more, given those already read, last first. -/
def readItems : Nat → List Json → List Char → Option (Json × List Char)
  | 0, _, _ => none
  | fuel + 1, items, s =>
    match readValue fuel s with
    | none => none
    | some (v, rest) =>
      match skipSpace rest with
      | ']' :: rest => some (array (v :: items).reverse, rest)
      | ',' :: rest => readItems fuel (v :: items) rest
      | _ => none

/-- Reads the members of an object that has at least one more, given those already read, last
first. -/
def readMembers : Nat → List (List Nat × Json) → List Char → Option (Json × List Char)
  | 0, _, _ => none
  | fuel + 1, members, s =>
    match skipSpace s with
    | '"' :: rest =>
      match readString [] rest with
      | none => none
      | some (name, rest) =>
        match skipSpace rest with
        | ':' :: rest =>
          match readValue fuel rest with
          | none => none
          | some (v, rest) =>
            match skipSpace rest with
            | '\x7d' :: rest => some (object ((name, v) :: members).reverse, rest)
            | ',' :: rest => readMembers fuel ((name, v) :: members) rest
            | _ => none
        | _ => none
    | _ => none

end

/-- Reads a document: one value, and nothing but blanks behind it. -/
def read? (s : List Char) : Option Json :=
  match readValue (s.length + 1) s with
  | some (v, rest) => if (skipSpace rest).isEmpty then some v else none
  | none => none

end Json

end FiveStage
