import FiveStage.Config.Error
import FiveStage.Memory.Basic
import FiveStage.Text.Blank

/-!
# Memory contents and ranges as text

Two small text formats, both of hexadecimal numbers between blanks. An initial image lists addresses
with the 32-bit word to store at each; a range file holds a start and an end address. A number may
carry a prefix `0x`, and lines that begin with `#` are remarks.
-/

namespace FiveStage

namespace ImageText

/-- Whether a line is a remark. -/
def isRemark (line : List Char) : Bool :=
  match line.dropWhile Text.isBlank with
  | c :: _ => c = '#'
  | [] => false

/-- The tokens of a text, remarks left out. -/
def tokens (text : List Char) : List (List Char) :=
  ((Text.lines text).filter fun line => !isRemark line).flatMap Text.tokens

/-- A token without its prefix. -/
def digits : List Char → List Char
  | '0' :: 'x' :: rest => rest
  | '0' :: 'X' :: rest => rest
  | token => token

/-- Reads a hexadecimal number. -/
def number (subject : ParseSubject) (token : List Char) : Except ConfigError Nat :=
  match Text.readUnsigned 16 (digits token) with
  | .ok n => .ok n
  | .error e => .error (.parse subject (.numeral token e))

/-- Reads an address and the word to store there. -/
def pair (addr value : List Char) : Except ConfigError (Word × InstWord) :=
  match number .initImageAddress addr with
  | .error e => .error e
  | .ok a =>
    match number .initImageValue value with
    | .error e => .error e
    | .ok v =>
      if v < 0x100000000 then .ok (BitVec.ofNat 64 a, BitVec.ofNat 32 v)
      else .error (.parse .initImageValue (.wideValue value))

/-- Reads tokens two by two; a last token without a partner is ignored. -/
def pairs : List (List Char) → Except ConfigError (List (Word × InstWord))
  | addr :: value :: rest =>
    match pair addr value with
    | .error e => .error e
    | .ok p =>
      match pairs rest with
      | .error e => .error e
      | .ok ps => .ok (p :: ps)
  | _ => .ok []

/-- Reads an initial image. -/
def readImage (text : List Char) : Except ConfigError (List (Word × InstWord)) :=
  let ts := tokens text
  if ts.length % 2 = 0 then pairs ts else .error (.parse .initImage (.unpaired ts.length))

/-- Reads a range of addresses that holds at least one. -/
def readRange (text : List Char) : Except ConfigError (Word × Word) :=
  match tokens text with
  | [start, stop] =>
    match number .dumpRangeStart start with
    | .error e => .error e
    | .ok a =>
      match number .dumpRangeEnd stop with
      | .error e => .error e
      | .ok b =>
        if a < b then .ok (BitVec.ofNat 64 a, BitVec.ofNat 64 b)
        else .error (.dumpRange (BitVec.ofNat 64 a) (BitVec.ofNat 64 b))
  | ts => .error (.parse .dumpRange (.rangeShape ts.length))

end ImageText

namespace Memory

/-- Stores the words of an image one after the other. The first that does not fit stops the others;
those before it stay. -/
def storeWords (m : Memory) : List (Word × InstWord) → Option MemoryError × Memory
  | [] => (none, m)
  | (addr, w) :: rest =>
    if m.Contains addr 4 then storeWords (m.write addr (toLittleEndian 4 w.toNat)) rest
    else (some (.outOfBounds addr 4), m)

end Memory

end FiveStage
