import FiveStage.Arithmetic
import FiveStage.Branch
import FiveStage.Proofs.InstructionSet

/-! # Words as integers

The machine cuts, joins, shifts and compares bit vectors. The lemmas read what it does as arithmetic
on the numbers that the bit vectors stand for: the immediates of the five formats, the operations of
the arithmetic unit in both widths, the comparisons of branches and the target of an indirect
jump. -/

namespace FiveStage

section Widths

variable {n : Nat}

theorem toNat_append_eq {p : Nat} (x : BitVec p) (y : BitVec n) :
    (x ++ y).toNat = x.toNat * 2 ^ n + y.toNat := by
  rw [BitVec.toNat_append, ← Nat.shiftLeft_add_eq_or_of_lt y.isLt, Nat.shiftLeft_eq]

theorem sub_eq_ofInt (x y : BitVec n) : x - y = BitVec.ofInt n (x.toInt - y.toInt) := by
  rw [Int.sub_eq_add_neg, BitVec.ofInt_add, BitVec.ofInt_neg, BitVec.ofInt_toInt,
    BitVec.ofInt_toInt, BitVec.sub_eq_add_neg]

theorem add_eq_ofInt (x y : BitVec n) : x + y = BitVec.ofInt n (x.toInt + y.toInt) := by
  rw [BitVec.ofInt_add, BitVec.ofInt_toInt, BitVec.ofInt_toInt]

theorem shiftLeft_eq_ofNat (x : BitVec n) (s : Nat) :
    x <<< s = BitVec.ofNat n (x.toNat * 2 ^ s) := by
  apply BitVec.eq_of_toNat_eq
  rw [BitVec.toNat_shiftLeft, BitVec.toNat_ofNat, Nat.shiftLeft_eq]

theorem ushiftRight_eq_ofNat (x : BitVec n) (s : Nat) :
    x >>> s = BitVec.ofNat n (x.toNat / 2 ^ s) := by
  rw [← Nat.shiftRight_eq_div_pow, ← BitVec.toNat_ushiftRight, BitVec.ofNat_toNat,
    BitVec.setWidth_eq]

theorem sshiftRight_eq_ofInt (x : BitVec n) (s : Nat) :
    x.sshiftRight s = BitVec.ofInt n (x.toInt / 2 ^ s) := by
  have h : (x.sshiftRight s).toInt = x.toInt / 2 ^ s := by
    rw [BitVec.toInt_sshiftRight, Int.shiftRight_eq_div_pow]
    norm_cast
  rw [← h, BitVec.ofInt_toInt]

end Widths

namespace Word

theorem toNat_setWidth_low (a : Word) : (a.setWidth 32).toNat = a.unsignedLow := by
  rw [BitVec.toNat_setWidth, unsignedLow]

theorem toInt_setWidth_low (a : Word) : (a.setWidth 32).toInt = a.signedLow := by
  unfold signedLow
  rw [BitVec.toInt_eq_toNat_bmod, toNat_setWidth_low]

/-- Widening a half word by its sign is reading it as a number of thirty-two bits. -/
theorem signExtend_ofInt (z : Int) : (BitVec.ofInt 32 z).signExtend 64 = ofLow z := by
  rw [BitVec.signExtend, BitVec.toInt_ofInt, ofLow]

theorem signExtend_ofNat (n : Nat) : (BitVec.ofNat 32 n).signExtend 64 = ofLow n := by
  rw [← BitVec.ofInt_natCast, signExtend_ofInt]

/-- The address of the word behind another. -/
theorem add_four (a : Word) : a + 4 = .ofNat 64 (a.toNat + 4) := BitVec.add_def a 4

/-- The sum of an address and a displacement. -/
theorem add_eq_displaced (a b : Word) : a + b = .ofInt 64 (a.toNat + b.toInt) := by
  rw [BitVec.ofInt_add, BitVec.ofInt_natCast, BitVec.ofNat_toNat, BitVec.setWidth_eq,
    BitVec.ofInt_toInt]

/-- Cutting a number to `n` bits and widening it again. -/
theorem signExtend_setWidth_ofNat {n : Nat} (hn : n ≤ 64) (v : Nat) :
    ((BitVec.ofNat 64 v).setWidth n).signExtend 64 = .ofInt 64 (Int.bmod v (2 ^ n)) := by
  have h : (BitVec.ofNat 64 v).setWidth n = .ofNat n v := by
    apply BitVec.eq_of_toNat_eq
    rw [BitVec.toNat_setWidth, BitVec.toNat_ofNat, BitVec.toNat_ofNat,
      Nat.mod_mod_of_dvd v (Nat.pow_dvd_pow 2 hn)]
  rw [h, BitVec.signExtend, ← BitVec.ofInt_natCast, BitVec.toInt_ofInt]

end Word

namespace ArithOp

variable (a b : Word)

theorem compute_add : add.compute a b false = .ofInt 64 (a.toInt + b.toInt) := add_eq_ofInt a b

theorem compute_sub : sub.compute a b false = .ofInt 64 (a.toInt - b.toInt) := sub_eq_ofInt a b

theorem compute_sll :
    sll.compute a b false = .ofNat 64 (a.toNat * 2 ^ (b.toNat % 64)) := shiftLeft_eq_ofNat a _

theorem compute_srl :
    srl.compute a b false = .ofNat 64 (a.toNat / 2 ^ (b.toNat % 64)) := ushiftRight_eq_ofNat a _

theorem compute_sra :
    sra.compute a b false = .ofInt 64 (a.toInt / 2 ^ (b.toNat % 64)) := sshiftRight_eq_ofInt a _

/-- The bit of an immediate that would turn an addition into a subtraction is not heeded. -/
theorem ofFunct3_immediate (alternate : Bool) :
    ofFunct3 0 (alternate && decide (0 = 5)) = add := by
  have h : (alternate && decide (0 = 5)) = false := by simp
  rw [h]
  rfl

theorem compute_slt : slt.compute a b false = if a.toInt < b.toInt then 1 else 0 := by
  show Word.ofCondition (a.slt b) = _
  rw [Word.ofCondition, BitVec.slt_eq_decide]
  simp only [decide_eq_true_eq]

theorem compute_sltu : sltu.compute a b false = if a.toNat < b.toNat then 1 else 0 := by
  show Word.ofCondition (a.ult b) = _
  rw [Word.ofCondition, BitVec.ult_eq_decide]
  simp only [decide_eq_true_eq]

theorem compute_addw : add.compute a b true = .ofLow (a.signedLow + b.signedLow) := by
  show ((a + b).setWidth 32).signExtend 64 = _
  rw [BitVec.setWidth_add _ _ (by decide), add_eq_ofInt, Word.signExtend_ofInt,
    Word.toInt_setWidth_low, Word.toInt_setWidth_low]

theorem compute_subw : sub.compute a b true = .ofLow (a.signedLow - b.signedLow) := by
  show ((a - b).setWidth 32).signExtend 64 = _
  rw [BitVec.sub_eq_add_neg, BitVec.setWidth_add _ _ (by decide),
    BitVec.setWidth_neg_of_le (by decide), ← BitVec.sub_eq_add_neg, sub_eq_ofInt,
    Word.signExtend_ofInt, Word.toInt_setWidth_low, Word.toInt_setWidth_low]

theorem compute_sllw :
    sll.compute a b true = .ofLow (a.unsignedLow * 2 ^ (b.toNat % 32)) := by
  show (a.setWidth 32 <<< (b.toNat % 32)).signExtend 64 = _
  rw [shiftLeft_eq_ofNat, Word.signExtend_ofNat, Word.toNat_setWidth_low]
  norm_cast

theorem compute_srlw :
    srl.compute a b true = .ofLow (a.unsignedLow / 2 ^ (b.toNat % 32)) := by
  show (a.setWidth 32 >>> (b.toNat % 32)).signExtend 64 = _
  rw [ushiftRight_eq_ofNat, Word.signExtend_ofNat, Word.toNat_setWidth_low]
  norm_cast

theorem compute_sraw :
    sra.compute a b true = .ofLow (a.signedLow / 2 ^ (b.toNat % 32)) := by
  show ((a.setWidth 32).sshiftRight (b.toNat % 32)).signExtend 64 = _
  rw [sshiftRight_eq_ofInt, Word.signExtend_ofInt, Word.toInt_setWidth_low]

end ArithOp

namespace InstWord

variable (w : InstWord)

theorem toNat_extract (low n : Nat) : (w.extractLsb' low n).toNat = w.bits low n := by
  rw [BitVec.extractLsb'_toNat, Nat.shiftRight_eq_div_pow, bits]

/-- A field widened by its sign stands for the signed number that its bits spell. -/
theorem toInt_widened {n : Nat} (field : BitVec n) (hn : n ≤ 64) {z : Int} (h : field.toNat = z) :
    (field.signExtend 64).toInt = Int.bmod z (2 ^ n) := by
  rw [BitVec.toInt_signExtend_of_le hn, BitVec.toInt_eq_toNat_bmod, h]

theorem toInt_immI : w.immI.toInt = w.signedI :=
  toInt_widened _ (by decide) (by rw [toNat_extract])

theorem toInt_immS : w.immS.toInt = w.signedS := by
  refine toInt_widened _ (by decide) ?_
  simp only [toNat_append_eq, toNat_extract]
  omega

theorem toInt_immB : w.immB.toInt = w.signedB := by
  refine toInt_widened _ (by decide) ?_
  simp only [toNat_append_eq, toNat_extract, BitVec.toNat_ofNat]
  omega

theorem toInt_immU : w.immU.toInt = w.signedU := by
  refine toInt_widened _ (by decide) ?_
  simp only [toNat_append_eq, toNat_extract, BitVec.toNat_ofNat]
  omega

theorem toInt_immJ : w.immJ.toInt = w.signedJ := by
  refine toInt_widened _ (by decide) ?_
  simp only [toNat_append_eq, toNat_extract, BitVec.toNat_ofNat]
  omega

theorem immI_eq : w.immI = .ofInt 64 w.signedI := by
  rw [← toInt_immI, BitVec.ofInt_toInt]

/-- The amount of an immediate shift stands in the low bits of the immediate. -/
theorem immI_mod {n : Nat} (hn : n ≤ 12) : w.immI.toNat % 2 ^ n = w.bits 20 n := by
  have h : w.immI.setWidth n = w.extractLsb' 20 n := by
    ext i hi
    have h12 : i < 12 := Nat.lt_of_lt_of_le hi hn
    have h64 : i < 64 := Nat.lt_trans h12 (by decide)
    simp [immI, BitVec.getElem_signExtend, h12, h64]
  rw [← BitVec.toNat_setWidth, h, toNat_extract]

/-- The bit that selects subtraction and the arithmetic shift is one of the upper function bits. -/
theorem alternate_eq : w.alternate = decide (w.funct7 / 2 ^ 5 % 2 = 1) := by
  rw [← Nat.testBit_eq_decide_div_mod_eq, funct7, BitVec.testBit_toNat,
    BitVec.getLsbD_extractLsb']
  rfl

end InstWord

namespace Word

theorem toNat_eq_emod (a : Word) : (a.toNat : Int) = a.toInt % 2 ^ 64 := by
  rw [BitVec.toInt_eq_toNat_bmod]
  have := a.isLt
  have h := Int.bmod_emod (x := (a.toNat : Int)) (m := 2 ^ 64)
  omega

/-- A sum is cut to its low half whether or not an operand has been cut before. -/
theorem ofLow_add_signedLow (z : Int) (b : Word) :
    ofLow (z + b.signedLow) = ofLow (z + b.toInt) := by
  have h : b.signedLow = Int.bmod b.toInt (2 ^ 32) := by
    rw [← toInt_setWidth_low, BitVec.toInt_setWidth, BitVec.toInt_eq_toNat_bmod b,
      Int.bmod_bmod_of_dvd (by decide)]
  unfold ofLow
  rw [h, Int.add_bmod_bmod]

/-- Clearing the lowest bit of a word is taking the even number at or below it. -/
theorem clear_lowest (t : Int) :
    BitVec.ofInt 64 t &&& ~~~1 = BitVec.ofInt 64 (t - t % 2) := by
  have hmask : ~~~(1 : Word) = BitVec.allOnes 64 <<< 1 := by decide
  apply BitVec.eq_of_toNat_eq
  rw [hmask, ← BitVec.shiftLeft_ushiftRight, BitVec.toNat_shiftLeft, BitVec.toNat_ushiftRight,
    BitVec.toNat_ofInt, BitVec.toNat_ofInt, Nat.shiftLeft_eq, Nat.shiftRight_eq_div_pow]
  omega

end Word

end FiveStage
