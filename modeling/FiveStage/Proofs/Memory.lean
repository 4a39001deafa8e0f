import FiveStage.Proofs.Record

/-! # Stores and the words fetched behind them

A store changes the bytes it overwrites and no others, so that a word fetched from elsewhere is the
same before and after it (`instructionAt_stored`). -/

namespace FiveStage

namespace Memory

theorem data_setByte (bytes : ByteArray) (i : Nat) (b : UInt8) :
    (setByte bytes i b).data = bytes.data.setIfInBounds i b := by
  unfold setByte
  split
  next h =>
    have hd : i < bytes.data.size := h
    rw [ByteArray.data_set, Array.setIfInBounds, dif_pos hd]
  next h =>
    have hd : ¬ i < bytes.data.size := h
    rw [Array.setIfInBounds, dif_neg hd]

theorem size_setByte (bytes : ByteArray) (i : Nat) (b : UInt8) :
    (setByte bytes i b).size = bytes.size := by
  show (setByte bytes i b).data.size = bytes.data.size
  rw [data_setByte, Array.size_setIfInBounds]

theorem byteAt_eq (m : Memory) (i : Nat) : m.byteAt i = (m.bytes.data[i]?).getD 0 := by
  unfold byteAt
  split
  next h =>
    have hd : i < m.bytes.data.size := h
    rw [Array.getElem?_eq_getElem hd]
    rfl
  next h =>
    have hd : m.bytes.data.size ≤ i := Nat.le_of_not_lt h
    rw [Array.getElem?_eq_none hd]
    rfl

theorem size_setBytes (bytes : ByteArray) (i : Nat) (data : List UInt8) :
    (setBytes bytes i data).size = bytes.size := by
  induction data generalizing bytes i with
  | nil => rfl
  | cons b rest ih => rw [setBytes, ih, size_setByte]

@[simp] theorem size_write (m : Memory) (addr : Word) (data : List UInt8) :
    (m.write addr data).size = m.size := size_setBytes _ _ _

@[simp] theorem base_write (m : Memory) (addr : Word) (data : List UInt8) :
    (m.write addr data).base = m.base := rfl

theorem size_addZeros (n : Nat) (bytes : ByteArray) : (addZeros n bytes).size = bytes.size + n := by
  induction n generalizing bytes with
  | zero => rfl
  | succ n ih => rw [addZeros, ih, ByteArray.size_push, Nat.add_assoc, Nat.add_comm 1]

@[simp] theorem size_zeros (base : Word) (n : Nat) : (zeros base n).size = n := by
  show (addZeros n (.emptyWithCapacity n)).size = n
  rw [size_addZeros]
  exact Nat.zero_add n

/-- What is not longer than a new memory fits into it. -/
theorem place_zeros (base : Word) {n : Nat} {data : List UInt8} (h : data.length ≤ n) :
    (zeros base n).place base data = .ok ((zeros base n).write base data) := by
  refine if_pos ⟨Nat.le_refl _, ?_⟩
  rw [size_zeros]
  exact Nat.add_le_add_left h _

theorem byteAt_setByte_of_ne (base : Word) (bytes : ByteArray) {i j : Nat} (b : UInt8)
    (h : i ≠ j) : byteAt ⟨base, setByte bytes i b⟩ j = byteAt ⟨base, bytes⟩ j := by
  rw [byteAt_eq, byteAt_eq]
  simp only [data_setByte, Array.getElem?_setIfInBounds_ne h]

theorem byteAt_setBytes (base : Word) (bytes : ByteArray) (data : List UInt8) {i j : Nat}
    (h : j < i ∨ i + data.length ≤ j) :
    byteAt ⟨base, setBytes bytes i data⟩ j = byteAt ⟨base, bytes⟩ j := by
  induction data generalizing bytes i with
  | nil => rfl
  | cons b rest ih =>
    rw [List.length_cons] at h
    rw [setBytes, ih _ (by omega), byteAt_setByte_of_ne _ _ _ (by omega)]

theorem slice_write (m : Memory) (addr : Word) (data : List UInt8) {i n : Nat}
    (h : i + n ≤ m.offset addr ∨ m.offset addr + data.length ≤ i) :
    (m.write addr data).slice i n = m.slice i n := by
  induction n generalizing i with
  | zero => rfl
  | succ n ih =>
    rw [slice, slice, ih (by omega)]
    congr 1
    exact byteAt_setBytes m.base m.bytes data (by unfold offset at h; omega)

/-- A word outside the bytes that are written stays. -/
theorem instructionAt_write (m : Memory) {addr pc : Word} {data : List UInt8}
    (ha : m.base.toNat ≤ addr.toNat)
    (h : pc.toNat + 4 ≤ addr.toNat ∨ addr.toNat + data.length ≤ pc.toNat) :
    (m.write addr data).instructionAt pc = m.instructionAt pc := by
  have hc : (m.write addr data).Contains pc 4 ↔ m.Contains pc 4 := by simp [Contains]
  unfold instructionAt
  by_cases hpc : m.Contains pc 4
  · rw [if_pos (hc.mpr hpc), if_pos hpc]
    have hoff : (m.write addr data).offset pc = m.offset pc := rfl
    unfold value
    rw [hoff, slice_write]
    unfold offset
    have := hpc.1
    omega
  · rw [if_neg (mt hc.mp hpc), if_neg hpc]

end Memory

theorem length_toLittleEndian (n v : Nat) : (toLittleEndian n v).length = n := by
  induction n generalizing v with
  | zero => rfl
  | succ n ih => rw [toLittleEndian, List.length_cons, ih]

namespace Instruction

/-- The instruction is a store that overwrites one of the four bytes of the word at an address. -/
def Overwrites (i : Instruction) (pc : Word) : Prop :=
  i.isStore = true ∧ i.memAddress.toNat < pc.toNat + 4 ∧
    pc.toNat < i.memAddress.toNat + i.width.bytes

instance (i : Instruction) (pc : Word) : Decidable (i.Overwrites pc) :=
  inferInstanceAs (Decidable (_ ∧ _ ∧ _))

/-- A store that does not overwrite a word leaves it as it is. -/
theorem instructionAt_stored {i : Instruction} {w : InstWord} (hw : i.flags = w.flags)
    {m : Memory} {pc : Word} (hfit : i.Fits m) (h : ¬ i.Overwrites pc) :
    (i.stored m).instructionAt pc = m.instructionAt pc := by
  unfold stored
  cases hs : w.flags.writesMem with
  | false => simp [hw, hs]
  | true =>
    have hr := (w.flags_store hs).1
    simp only [hw, hs, hr, Bool.not_false, Bool.and_self, if_true]
    have hstore : i.isStore = true := by simp [isStore, hw, hs, w.legal_of_writesMem hs]
    apply Memory.instructionAt_write
    · exact (hfit (.inr (by rw [hw, hs]))).1
    · rw [length_toLittleEndian]
      unfold Overwrites at h
      have : ¬ (i.memAddress.toNat < pc.toNat + 4 ∧
        pc.toNat < i.memAddress.toNat + i.width.bytes) := fun hn => h ⟨hstore, hn⟩
      omega

end Instruction

end FiveStage
