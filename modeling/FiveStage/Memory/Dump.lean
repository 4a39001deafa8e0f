import FiveStage.Memory.Basic

/-!
# Memory dumps

A range of addresses as rows of five 32-bit words. The bytes of a word stand in address order. Words
outside the memory are left out, so every range can be dumped, up to the end of the address space.

The address behind the last words of the address space is no word. Both loops run over an optional
address, which is none there.
-/

namespace FiveStage

/-- The number of addresses from an address on; no address has none. -/
def Word.remaining : Option Word → Nat
  | none => 0
  | some a => Word.count - a.toNat

theorem Word.remaining_checkedAdd_lt (a : Word) {n : Nat} (h : 0 < n) :
    Word.remaining (a.checkedAdd n) < Word.remaining (some a) := by
  have ha := a.isLt
  unfold Word.checkedAdd
  split
  next hn =>
    simp only [Word.remaining, Word.count, BitVec.toNat_add, BitVec.toNat_ofNat] at *
    omega
  next =>
    simp only [Word.remaining, Word.count]
    omega

namespace Memory

/-- The words on a row of a dump. -/
def wordsPerRow : Nat := 5

/-- A byte as two hexadecimal digits. -/
def byteText (b : UInt8) : String := Text.hexPadded 2 b.toNat

/-- The word at an address in a dump; nothing when a byte of it lies outside the memory. -/
def dumpWord (m : Memory) (addr : Word) : String :=
  if m.Contains addr 4 then " 0x" ++ String.join ((m.slice (m.offset addr) 4).map byteText) else ""

/-- The words of a row from an address up to the end of the row, behind the text before them, and
the address behind the last of them. -/
def dumpWords (m : Memory) (rowEnd : Word) (text : String) : Option Word → String × Option Word
  | none => (text, none)
  | some addr =>
    if addr < rowEnd then m.dumpWords rowEnd (text ++ m.dumpWord addr) (addr.checkedAdd 4)
    else (text, some addr)
termination_by next => Word.remaining next
decreasing_by exact Word.remaining_checkedAdd_lt addr (by decide)

theorem remaining_dumpWords_le (m : Memory) (rowEnd : Word) (text : String) (next : Option Word) :
    Word.remaining (m.dumpWords rowEnd text next).2 ≤ Word.remaining next := by
  fun_induction dumpWords m rowEnd text next with
  | case1 text => exact Nat.le_refl _
  | case2 text addr h ih =>
    exact Nat.le_of_lt (Nat.lt_of_le_of_lt ih (Word.remaining_checkedAdd_lt addr (by decide)))
  | case3 text addr h => exact Nat.le_refl _

/-- The end of the row that begins at an address: that of the range, or the address behind five
words. -/
def rowEnd (row stop : Word) : Word :=
  let full := row.saturatingAdd (4 * wordsPerRow)
  if full ≤ stop then full else stop

/-- Next to the end of the address space too, a row ends where it would among the numbers. -/
theorem toNat_rowEnd (row stop : Word) :
    (rowEnd row stop).toNat = min (row.toNat + 4 * wordsPerRow) stop.toNat := by
  have hstop := stop.isLt
  unfold rowEnd Word.saturatingAdd Word.count wordsPerRow
  by_cases h : row.toNat + 4 * 5 < 0x10000000000000000
  · simp only [if_pos h, BitVec.le_def]
    split <;> simp only [BitVec.toNat_add, BitVec.toNat_ofNat] at * <;> omega
  · simp only [if_neg h, BitVec.le_def]
    split <;> simp only [BitVec.toNat_allOnes] at * <;> omega

/-- A row leads to a later address. -/
theorem remaining_row_lt (m : Memory) {row stop : Word} (text : String) (h : row < stop) :
    Word.remaining (m.dumpWords (rowEnd row stop) text (some row)).2 <
      Word.remaining (some row) := by
  have hlt : row < rowEnd row stop := by
    rw [BitVec.lt_def, toNat_rowEnd]
    simp only [BitVec.lt_def, wordsPerRow] at *
    omega
  rw [dumpWords, if_pos hlt]
  exact Nat.lt_of_le_of_lt (remaining_dumpWords_le m _ _ _)
    (Word.remaining_checkedAdd_lt row (by decide))

/-- The rows of a dump from an address up to the end of the range, behind the text before them. -/
def dumpRows (m : Memory) (stop : Word) (text : String) : Option Word → String
  | none => text
  | some row =>
    if row < stop then
      let words :=
        m.dumpWords (rowEnd row stop) (text ++ "0x" ++ Text.hexPadded 8 row.toNat ++ ":") (some row)
      m.dumpRows stop (words.1 ++ "\n") words.2
    else text
termination_by next => Word.remaining next
decreasing_by next h => exact remaining_row_lt m _ h

/-- The words of a range of addresses in rows of five. -/
def dump (m : Memory) (start stop : Word) : String := m.dumpRows stop "" (some start)

end Memory

end FiveStage
