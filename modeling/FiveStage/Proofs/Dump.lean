import FiveStage.Proofs.Memory
import FiveStage.Memory.Dump

/-! # The text of a dump

A dump of a range of addresses is the text that the addresses as numbers lay down
(`Memory.dump_eq_dumpText`): every fourth address from the start of the range on, five to a row. The
sums over machine words that the two loops form stop short of the end of the address space where the
numbers go on, and they lead through the same addresses. -/

namespace FiveStage

namespace Memory

/-- The addresses of the words of a range: every fourth from its start on. -/
def wordAddresses (start stop : Nat) : List Nat :=
  (List.range ((stop - start + 3) / 4)).map fun k => start + 4 * k

/-- A list cut into rows, each full but the last. -/
def inRows : List Nat → List (List Nat)
  | [] => []
  | a :: rest =>
    (a :: rest).take wordsPerRow :: inRows ((a :: rest).drop wordsPerRow)
termination_by l => l.length
decreasing_by simp only [wordsPerRow, List.length_drop, List.length_cons]; omega

/-- A byte as its two hexadecimal digits. -/
def twoDigits (b : UInt8) : String :=
  String.ofList [Nat.digitChar (b.toNat / 16), Nat.digitChar (b.toNat % 16)]

/-- The bytes at an address in address order; nothing when one of them lies outside the memory. -/
def wordText (m : Memory) (a : Nat) : String :=
  if m.base.toNat ≤ a ∧ a + 4 ≤ m.base.toNat + m.size then
    " 0x" ++ String.join ((List.range 4).map fun i => twoDigits (m.byteAt (a - m.base.toNat + i)))
  else ""

/-- A row: its first address, then its words. -/
def rowText (m : Memory) : List Nat → String
  | [] => ""
  | a :: rest =>
    "0x" ++ Text.hexPadded 8 a ++ ":" ++ String.join ((a :: rest).map m.wordText) ++ "\n"

/-- The words of a range of addresses in rows, laid out over the numbers. -/
def dumpText (m : Memory) (start stop : Nat) : String :=
  String.join ((inRows (wordAddresses start stop)).map m.rowText)

/-! ## Addresses and rows -/

theorem mem_wordAddresses {start stop a : Nat} :
    a ∈ wordAddresses start stop ↔ ∃ k, a = start + 4 * k ∧ a < stop := by
  simp only [wordAddresses, List.mem_map, List.mem_range]
  constructor
  · rintro ⟨k, hk, rfl⟩
    exact ⟨k, rfl, by omega⟩
  · rintro ⟨k, rfl, hlt⟩
    exact ⟨k, by omega, rfl⟩

theorem wordAddresses_pairwise (start stop : Nat) :
    (wordAddresses start stop).Pairwise (· < ·) := by
  refine List.Pairwise.map _ ?_ List.pairwise_lt_range
  intro i j hij
  omega

theorem wordAddresses_of_le {start stop : Nat} (h : stop ≤ start) :
    wordAddresses start stop = [] := by
  have hcount : (stop - start + 3) / 4 = 0 := by omega
  rw [wordAddresses, hcount]
  rfl

theorem wordAddresses_of_lt {start stop : Nat} (h : start < stop) :
    wordAddresses start stop = start :: wordAddresses (start + 4) stop := by
  have hcount : (stop - start + 3) / 4 = (stop - (start + 4) + 3) / 4 + 1 := by omega
  rw [wordAddresses, hcount, List.range_succ_eq_map, List.map_cons, List.map_map, wordAddresses]
  congr 1
  refine List.map_congr_left fun k _ => ?_
  simp only [Function.comp_apply]
  omega

/-- What is left of the addresses behind the first `k` of them. -/
theorem drop_wordAddresses (start stop k : Nat) :
    (wordAddresses start stop).drop k = wordAddresses (start + 4 * k) stop := by
  induction k generalizing start with
  | zero => rfl
  | succ k ih =>
    by_cases h : start < stop
    · rw [wordAddresses_of_lt h, List.drop_succ_cons, ih]
      congr 1
      omega
    · rw [wordAddresses_of_le (Nat.le_of_not_lt h), List.drop_nil,
        wordAddresses_of_le (by omega)]

/-- The addresses of a range that is cut after `k` words. -/
theorem take_wordAddresses (start stop k : Nat) :
    (wordAddresses start stop).take k = wordAddresses start (min (start + 4 * k) stop) := by
  induction k generalizing start with
  | zero => exact (wordAddresses_of_le (Nat.min_le_left _ _)).symm
  | succ k ih =>
    by_cases h : start < stop
    · have hcut : start < min (start + 4 * (k + 1)) stop := by omega
      rw [wordAddresses_of_lt h, wordAddresses_of_lt hcut, List.take_succ_cons, ih]
      congr 3
      omega
    · rw [wordAddresses_of_le (Nat.le_of_not_lt h), List.take_nil,
        wordAddresses_of_le (by omega)]

theorem flatten_inRows (l : List Nat) : (inRows l).flatten = l := by
  fun_induction inRows l with
  | case1 => rfl
  | case2 a rest ih => rw [List.flatten_cons, ih, List.take_append_drop]

/-- No row is empty, and none is longer than a row. -/
theorem length_of_mem_inRows {l row : List Nat} (h : row ∈ inRows l) :
    0 < row.length ∧ row.length ≤ wordsPerRow := by
  fun_induction inRows l with
  | case1 => cases h
  | case2 a rest ih =>
    cases h with
    | head =>
      rw [List.length_take, List.length_cons, wordsPerRow]
      omega
    | tail _ h => exact ih h

/-- Every row in front of another one is full. -/
theorem length_of_mem_dropLast_inRows {l row : List Nat} (h : row ∈ (inRows l).dropLast) :
    row.length = wordsPerRow := by
  fun_induction inRows l with
  | case1 => cases h
  | case2 a rest ih =>
    cases hrows : inRows ((a :: rest).drop wordsPerRow) with
    | nil => simp [hrows] at h
    | cons next later =>
      rw [hrows, List.dropLast_cons_cons] at h
      cases h with
      | head =>
        have hleft : (a :: rest).drop wordsPerRow ≠ [] := by
          intro hnil
          rw [hnil, inRows] at hrows
          cases hrows
        have hlt : wordsPerRow < (a :: rest).length := by
          simpa [List.drop_eq_nil_iff] using hleft
        rw [List.length_take, Nat.min_eq_left (Nat.le_of_lt hlt)]
      | tail _ h => exact ih (hrows ▸ h)

/-! ## The loops -/

theorem byteText_eq_twoDigits (b : UInt8) : byteText b = twoDigits b := by
  have hb : b.toNat < 256 := b.toNat_lt
  have hdigits : List.replicate (2 - (Nat.toDigits 16 b.toNat).length) '0' ++
      Nat.toDigits 16 b.toNat = [Nat.digitChar (b.toNat / 16), Nat.digitChar (b.toNat % 16)] := by
    by_cases h : b.toNat < 16
    · rw [Nat.toDigits_of_lt_base h, Nat.div_eq_of_lt h, Nat.mod_eq_of_lt h]
      rfl
    · rw [Nat.toDigits_of_base_le (by decide) (Nat.le_of_not_lt h),
        Nat.toDigits_of_lt_base (by omega)]
      rfl
  rw [byteText, Text.hexPadded, Text.padLeft, Text.hexDigits, String.length_ofList,
    ← String.ofList_append, hdigits, twoDigits]

theorem dumpWord_eq_wordText (m : Memory) (addr : Word) :
    m.dumpWord addr = m.wordText addr.toNat := by
  have hbytes : (m.slice (m.offset addr) 4).map byteText =
      (List.range 4).map fun i => twoDigits (m.byteAt (addr.toNat - m.base.toNat + i)) := by
    rw [funext byteText_eq_twoDigits]
    rfl
  rw [dumpWord, wordText, hbytes]
  rfl

theorem toNat_ofNat_of_lt {a : Nat} (h : a < Word.count) : (BitVec.ofNat 64 a).toNat = a := by
  rw [BitVec.toNat_ofNat]
  exact Nat.mod_eq_of_lt h

/-- The address that a number is, if it is one. -/
def addressOf (a : Nat) : Option Word :=
  if a < Word.count then some (BitVec.ofNat 64 a) else none

theorem addressOf_toNat (a : Word) : addressOf a.toNat = some a := by
  have ha : a.toNat < Word.count := a.isLt
  rw [addressOf, if_pos ha, BitVec.ofNat_toNat, BitVec.setWidth_eq]

/-- The sum that is formed with a check is that of the numbers, as far as it is an address. -/
theorem checkedAdd_eq_addressOf (a : Word) (n : Nat) :
    a.checkedAdd n = addressOf (a.toNat + n) := by
  rw [Word.checkedAdd, addressOf, BitVec.ofNat_add, BitVec.ofNat_toNat, BitVec.setWidth_eq]

theorem addressOf_of_lt {a : Nat} {stop : Word} (h : a < stop.toNat) :
    ∃ addr : Word, addressOf a = some addr ∧ addr.toNat = a ∧ addr < stop := by
  have hlt : a < Word.count := Nat.lt_trans h stop.isLt
  have hbefore : BitVec.ofNat 64 a < stop := by rw [BitVec.lt_def, toNat_ofNat_of_lt hlt]; exact h
  exact ⟨BitVec.ofNat 64 a, if_pos hlt, toNat_ofNat_of_lt hlt, hbefore⟩

/-- From the end of a range on there is no address, or none in the range. -/
theorem addressOf_of_le {a : Nat} {stop : Word} (h : stop.toNat ≤ a) :
    addressOf a = none ∨ ∃ addr : Word, addressOf a = some addr ∧ ¬ addr < stop := by
  by_cases hlt : a < Word.count
  · refine .inr ⟨BitVec.ofNat 64 a, if_pos hlt, ?_⟩
    rw [BitVec.lt_def, toNat_ofNat_of_lt hlt]
    exact Nat.not_lt.mpr h
  · exact .inl (if_neg hlt)

/-- The inner loop takes the words up to the end of the row, and stops behind the last of them. -/
theorem dumpWords_eq (m : Memory) (stop : Word) (text : String) (a : Nat) :
    m.dumpWords stop text (addressOf a) =
      (text ++ String.join ((wordAddresses a stop.toNat).map m.wordText),
        addressOf (a + 4 * (wordAddresses a stop.toNat).length)) := by
  -- induction on the distance to the end of the row
  induction hd : stop.toNat - a using Nat.strongRecOn generalizing a text with
  | _ d ih =>
    by_cases h : a < stop.toNat
    · obtain ⟨addr, haddr, rfl, hbefore⟩ := addressOf_of_lt h
      rw [haddr, dumpWords, if_pos hbefore, checkedAdd_eq_addressOf, ih _ (by omega) _ _ rfl,
        dumpWord_eq_wordText, wordAddresses_of_lt h, List.map_cons, String.join_cons,
        String.append_assoc, List.length_cons, Nat.mul_add, Nat.add_assoc, Nat.add_comm 4]
    · rw [wordAddresses_of_le (Nat.le_of_not_lt h), List.map_nil, String.join_nil,
        String.append_empty, List.length_nil, Nat.mul_zero, Nat.add_zero]
      obtain hnone | ⟨addr, haddr, hbehind⟩ := addressOf_of_le (Nat.le_of_not_lt h)
      · rw [hnone, dumpWords]
      · rw [haddr, dumpWords, if_neg hbehind]

/-- The first row of a range that is not empty, and the rows behind it. -/
theorem dumpText_of_lt (m : Memory) {a stop : Nat} (h : a < stop) :
    m.dumpText a stop =
      "0x" ++ Text.hexPadded 8 a ++ ":" ++
        String.join (((wordAddresses a stop).take wordsPerRow).map m.wordText) ++ "\n" ++
      String.join ((inRows ((wordAddresses a stop).drop wordsPerRow)).map m.rowText) := by
  rw [dumpText, wordAddresses_of_lt h, inRows, List.map_cons, String.join_cons]
  rfl

theorem dumpText_of_le (m : Memory) {a stop : Nat} (h : stop ≤ a) : m.dumpText a stop = "" := by
  rw [dumpText, wordAddresses_of_le h, inRows, List.map_nil, String.join_nil]

/-- The outer loop takes one row after another. -/
theorem dumpRows_eq (m : Memory) (stop : Word) (text : String) (a : Nat) :
    m.dumpRows stop text (addressOf a) = text ++ m.dumpText a stop.toNat := by
  -- induction on the distance to the end of the range
  induction hd : stop.toNat - a using Nat.strongRecOn generalizing a text with
  | _ d ih =>
    by_cases h : a < stop.toNat
    · obtain ⟨addr, haddr, rfl, hbefore⟩ := addressOf_of_lt h
      have hrow : wordAddresses addr.toNat (rowEnd addr stop).toNat =
          (wordAddresses addr.toNat stop.toNat).take wordsPerRow := by
        rw [toNat_rowEnd, take_wordAddresses]
      -- a last row that is not full leaves no addresses behind it
      have hleft : m.dumpText (addr.toNat +
          4 * ((wordAddresses addr.toNat stop.toNat).take wordsPerRow).length) stop.toNat =
          String.join ((inRows ((wordAddresses addr.toNat stop.toNat).drop wordsPerRow)).map
            m.rowText) := by
        rw [dumpText, ← drop_wordAddresses, List.length_take, ← List.drop_eq_drop_min]
      have hpos : 0 < ((wordAddresses addr.toNat stop.toNat).take wordsPerRow).length := by
        rw [wordAddresses_of_lt h]
        exact Nat.zero_lt_succ _
      rw [haddr, dumpRows, if_pos hbefore, ← haddr, dumpWords_eq, hrow,
        ih _ (by omega) _ _ rfl, hleft, dumpText_of_lt m h]
      simp only [String.append_assoc]
    · rw [dumpText_of_le m (Nat.le_of_not_lt h), String.append_empty]
      obtain hnone | ⟨addr, haddr, hbehind⟩ := addressOf_of_le (Nat.le_of_not_lt h)
      · rw [hnone, dumpRows]
      · rw [haddr, dumpRows, if_neg hbehind]

/-- A dump is what the addresses of its range lay down as numbers. -/
theorem dump_eq_dumpText (m : Memory) (start stop : Word) :
    m.dump start stop = m.dumpText start.toNat stop.toNat := by
  rw [dump, ← addressOf_toNat, dumpRows_eq, String.empty_append]

theorem dumpText_eq_empty (m : Memory) {start stop : Nat} :
    m.dumpText start stop = "" ↔ stop ≤ start := by
  constructor
  · intro hempty
    apply Nat.le_of_not_lt
    intro h
    rw [dumpText_of_lt m h] at hempty
    simp at hempty
  · exact dumpText_of_le m

end Memory

/-- A dump is complete, and it comes to an end at every range. It lays down the addresses that lie a
multiple of four behind the start and in front of the end, in order and without a repetition, five
to a row and fewer at most on the last. A word is printed exactly if all its bytes lie in the
memory. A range without an address prints nothing, and no other does. -/
theorem memory_dump_complete (m : Memory) (start stop : Word) :
    m.dump start stop =
        String.join ((Memory.inRows (Memory.wordAddresses start.toNat stop.toNat)).map m.rowText) ∧
      (∀ a, a ∈ Memory.wordAddresses start.toNat stop.toNat ↔
        ∃ k, a = start.toNat + 4 * k ∧ a < stop.toNat) ∧
      (Memory.wordAddresses start.toNat stop.toNat).Pairwise (· < ·) ∧
      (Memory.inRows (Memory.wordAddresses start.toNat stop.toNat)).flatten =
        Memory.wordAddresses start.toNat stop.toNat ∧
      (∀ row ∈ Memory.inRows (Memory.wordAddresses start.toNat stop.toNat),
        0 < row.length ∧ row.length ≤ 5) ∧
      (∀ row ∈ (Memory.inRows (Memory.wordAddresses start.toNat stop.toNat)).dropLast,
        row.length = 5) ∧
      (m.dump start stop = "" ↔ stop ≤ start) := by
  refine ⟨m.dump_eq_dumpText start stop, fun _ => Memory.mem_wordAddresses,
    Memory.wordAddresses_pairwise _ _, Memory.flatten_inRows _,
    fun _ => Memory.length_of_mem_inRows, fun _ => Memory.length_of_mem_dropLast_inRows, ?_⟩
  rw [m.dump_eq_dumpText, m.dumpText_eq_empty, BitVec.le_def]

end FiveStage
