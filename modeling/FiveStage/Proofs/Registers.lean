import FiveStage.Registers

/-! # Reading a register after a write -/

namespace FiveStage.Registers

@[simp] theorem read_zero (r : Registers) : r.read 0 = 0 := rfl

@[simp] theorem write_zero (r : Registers) (v : Word) : r.write 0 v = r := rfl

theorem read_write_same (r : Registers) (v : Word) {i : Nat} (h0 : i ≠ 0) (h : i < registerCount) :
    (r.write i v).read i = v := by
  have hi : i - 1 < 31 := by simp only [registerCount] at h; omega
  simp [write, read, h0, hi]

theorem read_write_of_ne (r : Registers) (v : Word) {i j : Nat} (h : j ≠ i) :
    (r.write i v).read j = r.read j := by
  by_cases hi : i = 0
  · simp [hi]
  by_cases hj : j = 0
  · simp [hj]
  have hne : i - 1 ≠ j - 1 := by omega
  simp [write, read, hi, hj, hne]

/-- A value written twice is as good as written once. -/
theorem write_write (r : Registers) (i : Nat) (v : Word) :
    (r.write i v).write i v = r.write i v := by
  by_cases hi : i = 0
  · simp [hi]
  · simp only [write, if_neg hi, mk.injEq]
    ext k hk
    by_cases h : i - 1 = k <;> simp [h]

end FiveStage.Registers
