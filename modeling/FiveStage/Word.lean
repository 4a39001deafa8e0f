/-!
# Machine words

Registers, addresses and immediates are 64-bit words, instructions are 32-bit words. The operations
below cut a field out of a word, widen a field by its sign bit and add to a word without running
over the end of the words.
-/

namespace FiveStage

/-- A 64-bit machine word: a register value or a byte address. -/
abbrev Word := BitVec 64

/-- A 32-bit instruction word. -/
abbrev InstWord := BitVec 32

/-- The bits `high` down to `low` of a word, moved to the right end. -/
def Word.field (w : Word) (high low : Nat) : Word :=
  (w.extractLsb' low (high + 1 - low)).setWidth 64

/-- The low bits of a value up to `bit`, widened again with copies of that bit. -/
def signExtendFrom {n : Nat} (value : BitVec n) (bit : Nat) : BitVec n :=
  (value.setWidth (bit + 1)).signExtend n

/-- A word is 1 for a condition that holds and 0 for one that does not. -/
def Word.ofCondition (b : Bool) : Word := if b then 1 else 0

/-- The low half of a word, widened by its sign bit. -/
def Word.signExtendLow (w : Word) : Word := (w.setWidth 32).signExtend 64

/-- The number of words. -/
def Word.count : Nat := 0x10000000000000000

/-- The word `n` behind a word; none past the last one. -/
def Word.checkedAdd (w : Word) (n : Nat) : Option Word :=
  if w.toNat + n < Word.count then some (w + BitVec.ofNat 64 n) else none

/-- The word `n` behind a word, or the last word when there are fewer than `n` behind it. -/
def Word.saturatingAdd (w : Word) (n : Nat) : Word :=
  if w.toNat + n < Word.count then w + BitVec.ofNat 64 n else BitVec.allOnes 64

end FiveStage
