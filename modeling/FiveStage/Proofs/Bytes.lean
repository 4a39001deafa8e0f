import FiveStage.MemoryAccess
import FiveStage.Proofs.InstructionSet
import FiveStage.Proofs.Memory

/-! # Bytes by address

What a load reads and a store leaves behind, byte by byte: a value is the number that the bytes at
its addresses spell (`value_eq`), and a write replaces the bytes in its range and no others
(`cell_write`). -/

namespace FiveStage

theorem ofLittleEndian_append (xs ys : List UInt8) :
    ofLittleEndian (xs ++ ys) = ofLittleEndian xs + 256 ^ xs.length * ofLittleEndian ys := by
  induction xs with
  | nil => simp [ofLittleEndian]
  | cons x xs ih =>
    rw [List.cons_append, ofLittleEndian, ofLittleEndian, ih, List.length_cons, Nat.pow_succ,
      Nat.mul_add, Nat.add_assoc, Nat.mul_comm (256 ^ xs.length) 256, Nat.mul_assoc]

theorem getElem?_toLittleEndian {n k : Nat} (v : Nat) (hk : k < n) :
    (toLittleEndian n v)[k]? = some (UInt8.ofNat (v / 256 ^ k)) := by
  induction n generalizing v k with
  | zero => exact absurd hk (Nat.not_lt_zero k)
  | succ n ih =>
    cases k with
    | zero => simp [toLittleEndian]
    | succ k =>
      rw [toLittleEndian, List.getElem?_cons_succ, ih _ (Nat.lt_of_succ_lt_succ hk),
        Nat.div_div_eq_div_mul, Nat.pow_succ, Nat.mul_comm]

namespace Memory

theorem length_slice (m : Memory) (i n : Nat) : (m.slice i n).length = n := by
  induction n generalizing i with
  | zero => rfl
  | succ n ih => rw [slice, List.length_cons, ih]

theorem slice_succ (m : Memory) (i n : Nat) :
    m.slice i (n + 1) = m.slice i n ++ [m.byteAt (i + n)] := by
  induction n generalizing i with
  | zero => rfl
  | succ n ih =>
    rw [slice, ih, slice, List.cons_append, Nat.add_assoc, Nat.add_comm 1 n]

theorem ofLittleEndian_slice (m : Memory) {a : Nat} (ha : m.base.toNat ≤ a) (n : Nat) :
    ofLittleEndian (m.slice (a - m.base.toNat) n) = m.number a n := by
  induction n with
  | zero => rfl
  | succ n ih =>
    have hcell : m.cell (a + n) = m.byteAt (a - m.base.toNat + n) := by
      rw [cell, if_pos (Nat.le_add_right_of_le ha), Nat.sub_add_comm ha]
    have hlast (b : UInt8) : ofLittleEndian [b] = b.toNat := by simp [ofLittleEndian]
    rw [slice_succ, ofLittleEndian_append, ih, length_slice, hlast, number, hcell, Nat.mul_comm]

/-- The value at a mapped address is the number that its bytes spell. -/
theorem value_eq (m : Memory) {addr : Word} {n : Nat} (h : m.Contains addr n) :
    m.value addr n = .ofNat 64 (m.number addr.toNat n) := by
  rw [value, offset, ofLittleEndian_slice m h.1]

theorem byteAt_setByte_same (base : Word) (bytes : ByteArray) {i : Nat} (b : UInt8)
    (h : i < bytes.size) : byteAt ⟨base, setByte bytes i b⟩ i = b := by
  have hd : i < bytes.data.size := h
  rw [byteAt_eq]
  simp only [data_setByte, Array.getElem?_setIfInBounds_self_of_lt hd, Option.getD_some]

theorem byteAt_setBytes_of_mem (base : Word) (bytes : ByteArray) (data : List UInt8) {i k : Nat}
    {b : UInt8} (hb : data[k]? = some b) (h : i + data.length ≤ bytes.size) :
    byteAt ⟨base, setBytes bytes i data⟩ (i + k) = b := by
  induction data generalizing bytes i k with
  | nil => cases hb
  | cons d rest ih =>
    rw [List.length_cons] at h
    rw [setBytes]
    cases k with
    | zero =>
      rw [List.getElem?_cons_zero, Option.some.injEq] at hb
      rw [Nat.add_zero i, byteAt_setBytes _ _ _ (.inl (Nat.lt_add_one i)), hb]
      exact byteAt_setByte_same base bytes b (by omega)
    | succ k =>
      rw [List.getElem?_cons_succ] at hb
      have hrest : i + 1 + rest.length ≤ (setByte bytes i d).size := by
        rw [size_setByte]
        omega
      rw [← ih (setByte bytes i d) hb hrest, Nat.add_assoc, Nat.add_comm 1 k]

/-- The byte at an address after a write of mapped bytes. -/
theorem cell_write (m : Memory) {addr : Word} {data : List UInt8}
    (h : m.Contains addr data.length) (a : Nat) :
    (m.write addr data).cell a =
      if addr.toNat ≤ a ∧ a < addr.toNat + data.length then (data[a - addr.toNat]?).getD 0
      else m.cell a := by
  obtain ⟨hlow, hhigh⟩ := h
  unfold cell
  rw [base_write]
  by_cases ha : m.base.toNat ≤ a
  · rw [if_pos ha, if_pos ha]
    split
    next hin =>
      have hk : a - addr.toNat < data.length := by omega
      have hplace : a - m.base.toNat = addr.toNat - m.base.toNat + (a - addr.toNat) := by omega
      rw [List.getElem?_eq_getElem hk, Option.getD_some, hplace]
      refine byteAt_setBytes_of_mem m.base m.bytes data (List.getElem?_eq_getElem hk) ?_
      unfold size at hhigh
      omega
    next hout => exact byteAt_setBytes m.base m.bytes data (by omega)
  · rw [if_neg ha, if_neg ha, if_neg (by omega)]

/-- The byte at an address after the low bytes of a number have been stored. -/
theorem cell_store (m : Memory) {addr : Word} {n : Nat} (h : m.Contains addr n) (v a : Nat) :
    (m.write addr (toLittleEndian n v)).cell a =
      if addr.toNat ≤ a ∧ a < addr.toNat + n then UInt8.ofNat (v / 256 ^ (a - addr.toNat))
      else m.cell a := by
  have hlen := length_toLittleEndian n v
  rw [cell_write m (by rwa [hlen]), hlen]
  split
  next hin => rw [getElem?_toLittleEndian v (by omega), Option.getD_some]
  next => rfl

end Memory

end FiveStage
