import Mathlib.Tactic.Linarith
import Mathlib.Tactic.Positivity
import Mathlib.Tactic.Ring
import FiveStage.Instruction.Decode
import FiveStage.Proofs.Integers

/-! # The six formats

A word is put together from numbers by the rules of its format, an immediate being cut into pieces
that stand where the format has room for them. Every word is put together from the fields that are
read off it (`encode_fields`), and fields that fit their places are read off the word they make
(`fields_encode`). -/

namespace FiveStage

/-- The fields of an instruction word, format by format. An immediate is the number it stands
for. -/
inductive Fields
  | R (funct3 funct7 rd rs1 rs2 : Nat)
  | I (funct3 rd rs1 : Nat) (imm : Int)
  | S (funct3 rs1 rs2 : Nat) (imm : Int)
  | B (funct3 rs1 rs2 : Nat) (imm : Int)
  | U (rd : Nat) (imm : Int)
  | J (rd : Nat) (imm : Int)
  deriving DecidableEq, Repr

/-- The number that `n` bits of an immediate spell, from bit `low` upwards. -/
def immBits (imm : Int) (low n : Nat) : Nat := (imm / 2 ^ low % 2 ^ n).toNat

namespace Fields

/-- The number of the word that has given fields. -/
def code (opcode : Nat) : Fields → Nat
  | R f3 f7 rd rs1 rs2 =>
    opcode + rd * 2 ^ 7 + f3 * 2 ^ 12 + rs1 * 2 ^ 15 + rs2 * 2 ^ 20 + f7 * 2 ^ 25
  | I f3 rd rs1 imm =>
    opcode + rd * 2 ^ 7 + f3 * 2 ^ 12 + rs1 * 2 ^ 15 + immBits imm 0 12 * 2 ^ 20
  | S f3 rs1 rs2 imm =>
    opcode + immBits imm 0 5 * 2 ^ 7 + f3 * 2 ^ 12 + rs1 * 2 ^ 15 + rs2 * 2 ^ 20
      + immBits imm 5 7 * 2 ^ 25
  | B f3 rs1 rs2 imm =>
    opcode + immBits imm 11 1 * 2 ^ 7 + immBits imm 1 4 * 2 ^ 8 + f3 * 2 ^ 12 + rs1 * 2 ^ 15
      + rs2 * 2 ^ 20 + immBits imm 5 6 * 2 ^ 25 + immBits imm 12 1 * 2 ^ 31
  | U rd imm => opcode + rd * 2 ^ 7 + immBits imm 12 20 * 2 ^ 12
  | J rd imm =>
    opcode + rd * 2 ^ 7 + immBits imm 12 8 * 2 ^ 12 + immBits imm 11 1 * 2 ^ 20
      + immBits imm 1 10 * 2 ^ 21 + immBits imm 20 1 * 2 ^ 31

/-- The word that has given fields. -/
def encode (opcode : Nat) (x : Fields) : InstWord := .ofNat 32 (x.code opcode)

/-- The format of the fields. -/
def format : Fields → Format
  | R .. => .R
  | I .. => .I
  | S .. => .S
  | B .. => .B
  | U .. => .U
  | J .. => .J

/-- The fields fit the places that the format has for them. -/
def Fit : Fields → Prop
  | R f3 f7 rd rs1 rs2 => f3 < 8 ∧ f7 < 128 ∧ rd < 32 ∧ rs1 < 32 ∧ rs2 < 32
  | I f3 rd rs1 imm => f3 < 8 ∧ rd < 32 ∧ rs1 < 32 ∧ -2 ^ 11 ≤ imm ∧ imm < 2 ^ 11
  | S f3 rs1 rs2 imm => f3 < 8 ∧ rs1 < 32 ∧ rs2 < 32 ∧ -2 ^ 11 ≤ imm ∧ imm < 2 ^ 11
  | B f3 rs1 rs2 imm => f3 < 8 ∧ rs1 < 32 ∧ rs2 < 32 ∧ -2 ^ 12 ≤ imm ∧ imm < 2 ^ 12 ∧ 2 ∣ imm
  | U rd imm => rd < 32 ∧ -2 ^ 31 ≤ imm ∧ imm < 2 ^ 31 ∧ 2 ^ 12 ∣ imm
  | J rd imm => rd < 32 ∧ -2 ^ 20 ≤ imm ∧ imm < 2 ^ 20 ∧ 2 ∣ imm

end Fields

/-- The fields that a decoded instruction shows in a given format. -/
def Instruction.fields (i : Instruction) : Format → Fields
  | .R => .R i.funct3 i.funct7 i.rd i.rs1 i.rs2
  | .I => .I i.funct3 i.rd i.rs1 i.imm.toInt
  | .S => .S i.funct3 i.rs1 i.rs2 i.imm.toInt
  | .B => .B i.funct3 i.rs1 i.rs2 i.imm.toInt
  | .U => .U i.rd i.imm.toInt
  | .J => .J i.rd i.imm.toInt

section Immediates

theorem natCast_immBits (imm : Int) (low n : Nat) :
    (immBits imm low n : Int) = imm / 2 ^ low % 2 ^ n :=
  Int.toNat_of_nonneg (Int.emod_nonneg _ (by positivity))

theorem immBits_lt (imm : Int) (low n : Nat) : immBits imm low n < 2 ^ n := by
  have h : (immBits imm low n : Int) < 2 ^ n := by
    rw [natCast_immBits]
    exact Int.emod_lt_of_pos _ (by positivity)
  exact_mod_cast h

/-- The bits of a number are those of the signed number that its low bits stand for. -/
theorem immBits_bmod (width : Nat) (v : Int) {low n : Nat} (h : low + n ≤ width) :
    immBits (Int.bmod v (2 ^ width)) low n = immBits v low n := by
  obtain ⟨rest, rfl⟩ := Nat.exists_eq_add_of_le h
  -- the two numbers differ by a multiple of all that is above the bits
  obtain ⟨q, hq⟩ : ∃ q, Int.bmod v (2 ^ (low + n + rest)) =
      v + (2 : Int) ^ low * (2 ^ n * (2 ^ rest * q)) := by
    refine ⟨-Int.bdiv v (2 ^ (low + n + rest)), ?_⟩
    have hdiv := Int.bmod_add_bdiv v (2 ^ (low + n + rest))
    push_cast [pow_add] at hdiv ⊢
    linarith
  unfold immBits
  rw [hq, Int.add_mul_ediv_left _ _ (by positivity), Int.add_mul_emod_self_left]

/-- A signed number is known by its low bits. -/
theorem bmod_eq_of_emod {s imm : Int} (width : Nat) (hs : s = imm % 2 ^ (width + 1))
    (hlow : -2 ^ width ≤ imm) (hhigh : imm < 2 ^ width) : Int.bmod s (2 ^ (width + 1)) = imm := by
  have hcast : ((2 ^ (width + 1) : Nat) : Int) = 2 * 2 ^ width := by
    push_cast
    ring
  have hs' : s = imm % ((2 ^ (width + 1) : Nat) : Int) := by
    rw [hs]
    norm_cast
  rw [hs', Int.emod_bmod]
  refine Int.bmod_eq_of_le ?_ ?_ <;> rw [hcast] <;> omega

/-- The signed number that some bits stand for lies in the range of their number. -/
theorem bmod_range (width : Nat) (v : Int) :
    -2 ^ width ≤ Int.bmod v (2 ^ (width + 1)) ∧ Int.bmod v (2 ^ (width + 1)) < 2 ^ width := by
  have hpos : 0 < 2 ^ (width + 1) := by positivity
  have hhalf : (((2 ^ (width + 1) : Nat) : Int) + 1) / 2 = 2 ^ width := by
    push_cast
    rw [pow_succ]
    omega
  have hlow := Int.le_bmod (x := v) hpos
  have hhigh := Int.bmod_lt (x := v) hpos
  rw [hhalf] at hhigh
  refine ⟨?_, hhigh⟩
  rw [Nat.pow_succ] at hlow ⊢
  push_cast at hlow ⊢
  omega

/-- A number whose low bits are zero stands for a multiple of their number. -/
theorem dvd_of_immBits {imm : Int} {n : Nat} (h : immBits imm 0 n = 0) : 2 ^ n ∣ imm := by
  have hcast := natCast_immBits imm 0 n
  rw [h, pow_zero, Int.ediv_one] at hcast
  exact Int.dvd_of_emod_eq_zero hcast.symm

end Immediates

namespace InstWord

variable (w : InstWord)

theorem rs1_lt : w.rs1 < registerCount := (w.extractLsb' 15 5).isLt

theorem rs2_lt : w.rs2 < registerCount := (w.extractLsb' 20 5).isLt

theorem bits_lt (low n : Nat) : w.bits low n < 2 ^ n := Nat.mod_lt _ (by positivity)

/-- The fields of a word in a given format, as numbers. -/
def fields : Format → Fields
  | .R => .R (w.bits 12 3) (w.bits 25 7) (w.bits 7 5) (w.bits 15 5) (w.bits 20 5)
  | .I => .I (w.bits 12 3) (w.bits 7 5) (w.bits 15 5) w.signedI
  | .S => .S (w.bits 12 3) (w.bits 15 5) (w.bits 20 5) w.signedS
  | .B => .B (w.bits 12 3) (w.bits 15 5) (w.bits 20 5) w.signedB
  | .U => .U (w.bits 7 5) w.signedU
  | .J => .J (w.bits 7 5) w.signedJ

section Pieces

theorem pieces_signedI :
    immBits w.signedI 0 12 = w.bits 20 12 ∧ immBits w.signedI 5 7 = w.bits 25 7 := by
  refine ⟨(immBits_bmod 12 _ (by decide)).trans ?_, (immBits_bmod 12 _ (by decide)).trans ?_⟩
  all_goals
    unfold immBits bits
    omega

theorem pieces_signedS :
    immBits w.signedS 0 5 = w.bits 7 5 ∧ immBits w.signedS 5 7 = w.bits 25 7 := by
  have h1 := w.bits_lt 7 5
  have h2 := w.bits_lt 25 7
  refine ⟨(immBits_bmod 12 _ (by decide)).trans ?_, (immBits_bmod 12 _ (by decide)).trans ?_⟩
  all_goals
    unfold immBits
    omega

theorem pieces_signedB :
    immBits w.signedB 11 1 = w.bits 7 1 ∧ immBits w.signedB 1 4 = w.bits 8 4 ∧
      immBits w.signedB 5 6 = w.bits 25 6 ∧ immBits w.signedB 12 1 = w.bits 31 1 := by
  have h1 := w.bits_lt 7 1
  have h2 := w.bits_lt 8 4
  have h3 := w.bits_lt 25 6
  have h4 := w.bits_lt 31 1
  refine ⟨(immBits_bmod 13 _ (by decide)).trans ?_, (immBits_bmod 13 _ (by decide)).trans ?_,
    (immBits_bmod 13 _ (by decide)).trans ?_, (immBits_bmod 13 _ (by decide)).trans ?_⟩
  all_goals
    unfold immBits
    omega

theorem pieces_signedU : immBits w.signedU 12 20 = w.bits 12 20 := by
  have h := w.bits_lt 12 20
  refine (immBits_bmod 32 _ (by decide)).trans ?_
  unfold immBits
  omega

theorem pieces_signedJ :
    immBits w.signedJ 12 8 = w.bits 12 8 ∧ immBits w.signedJ 11 1 = w.bits 20 1 ∧
      immBits w.signedJ 1 10 = w.bits 21 10 ∧ immBits w.signedJ 20 1 = w.bits 31 1 := by
  have h1 := w.bits_lt 12 8
  have h2 := w.bits_lt 20 1
  have h3 := w.bits_lt 21 10
  have h4 := w.bits_lt 31 1
  refine ⟨(immBits_bmod 21 _ (by decide)).trans ?_, (immBits_bmod 21 _ (by decide)).trans ?_,
    (immBits_bmod 21 _ (by decide)).trans ?_, (immBits_bmod 21 _ (by decide)).trans ?_⟩
  all_goals
    unfold immBits
    omega

/-- The bits that a format leaves out of an immediate are zero. -/
theorem zeros_signedB : (2 : Int) ∣ w.signedB := by
  refine dvd_of_immBits (n := 1) ((immBits_bmod 13 _ (by decide)).trans ?_)
  unfold immBits
  omega

theorem zeros_signedU : (2 : Int) ^ 12 ∣ w.signedU := by
  refine dvd_of_immBits ((immBits_bmod 32 _ (by decide)).trans ?_)
  unfold immBits
  omega

theorem zeros_signedJ : (2 : Int) ∣ w.signedJ := by
  refine dvd_of_immBits (n := 1) ((immBits_bmod 21 _ (by decide)).trans ?_)
  unfold immBits
  omega

end Pieces

theorem format_fields (f : Format) : (w.fields f).format = f := by cases f <;> rfl

theorem fit_fields (f : Format) : (w.fields f).Fit := by
  have hreg (low : Nat) : w.bits low 5 < 32 := w.bits_lt low 5
  have h3 := w.bits_lt 12 3
  cases f with
  | R => exact ⟨h3, w.bits_lt 25 7, hreg 7, hreg 15, hreg 20⟩
  | I => exact ⟨h3, hreg 7, hreg 15, bmod_range 11 _⟩
  | S => exact ⟨h3, hreg 15, hreg 20, bmod_range 11 _⟩
  | B => exact ⟨h3, hreg 15, hreg 20, (bmod_range 12 _).1, (bmod_range 12 _).2, w.zeros_signedB⟩
  | U => exact ⟨hreg 7, (bmod_range 31 _).1, (bmod_range 31 _).2, w.zeros_signedU⟩
  | J => exact ⟨hreg 7, (bmod_range 20 _).1, (bmod_range 20 _).2, w.zeros_signedJ⟩

/-- Every word is made of its fields, in whatever format they are read. -/
theorem encode_fields (f : Format) : (w.fields f).encode (w.bits 0 7) = w := by
  have hlt : w.toNat < 2 ^ 32 := w.isLt
  have hcode : (w.fields f).code (w.bits 0 7) = w.toNat := by
    cases f with
    | R => simp only [fields, Fields.code, bits]; omega
    | I => simp only [fields, Fields.code, pieces_signedI, bits]; omega
    | S => simp only [fields, Fields.code, pieces_signedS, bits]; omega
    | B => simp only [fields, Fields.code, pieces_signedB, bits]; omega
    | U => simp only [fields, Fields.code, pieces_signedU, bits]; omega
    | J => simp only [fields, Fields.code, pieces_signedJ, bits]; omega
  apply BitVec.eq_of_toNat_eq
  rw [Fields.encode, hcode, BitVec.toNat_ofNat, Nat.mod_eq_of_lt hlt]

end InstWord

namespace Fields

variable {opcode : Nat} {x : Fields}

/-- Fields that fit do not reach out of the word. -/
theorem toNat_encode (ho : opcode < 128) (hx : x.Fit) :
    (x.encode opcode).toNat = x.code opcode := by
  have hcode : x.code opcode < 2 ^ 32 := by
    cases x with
    | R => simp only [Fit] at hx; simp only [code]; omega
    | I => simp only [Fit] at hx; simp only [code, immBits]; omega
    | S => simp only [Fit] at hx; simp only [code, immBits]; omega
    | B => simp only [Fit] at hx; simp only [code, immBits]; omega
    | U => simp only [Fit] at hx; simp only [code, immBits]; omega
    | J => simp only [Fit] at hx; simp only [code, immBits]; omega
  rw [encode, BitVec.toNat_ofNat, Nat.mod_eq_of_lt hcode]

/-- Nor do they reach into the opcode. -/
theorem opcode_encode (ho : opcode < 128) (hx : x.Fit) : (x.encode opcode).bits 0 7 = opcode := by
  unfold InstWord.bits
  rw [toNat_encode ho hx]
  cases x <;> (simp only [code]; omega)

section Immediates

variable {w : InstWord} {imm : Int}

/-- An immediate is put together again from the pieces of it that stand in a word. -/
theorem signedI_of_pieces (h : w.bits 20 12 = immBits imm 0 12) (hlow : -2 ^ 11 ≤ imm)
    (hhigh : imm < 2 ^ 11) : w.signedI = imm := by
  refine bmod_eq_of_emod 11 ?_ hlow hhigh
  rw [h, natCast_immBits]
  omega

theorem signedS_of_pieces (h1 : w.bits 7 5 = immBits imm 0 5) (h2 : w.bits 25 7 = immBits imm 5 7)
    (hlow : -2 ^ 11 ≤ imm) (hhigh : imm < 2 ^ 11) : w.signedS = imm := by
  refine bmod_eq_of_emod 11 ?_ hlow hhigh
  rw [h1, h2, natCast_immBits, natCast_immBits]
  omega

theorem signedB_of_pieces (h1 : w.bits 7 1 = immBits imm 11 1) (h2 : w.bits 8 4 = immBits imm 1 4)
    (h3 : w.bits 25 6 = immBits imm 5 6) (h4 : w.bits 31 1 = immBits imm 12 1)
    (hlow : -2 ^ 12 ≤ imm) (hhigh : imm < 2 ^ 12) (heven : 2 ∣ imm) : w.signedB = imm := by
  refine bmod_eq_of_emod 12 ?_ hlow hhigh
  rw [h1, h2, h3, h4, natCast_immBits, natCast_immBits, natCast_immBits, natCast_immBits]
  omega

theorem signedU_of_pieces (h : w.bits 12 20 = immBits imm 12 20) (hlow : -2 ^ 31 ≤ imm)
    (hhigh : imm < 2 ^ 31) (hzeros : 2 ^ 12 ∣ imm) : w.signedU = imm := by
  refine bmod_eq_of_emod 31 ?_ hlow hhigh
  rw [h, natCast_immBits]
  omega

theorem signedJ_of_pieces (h1 : w.bits 12 8 = immBits imm 12 8)
    (h2 : w.bits 20 1 = immBits imm 11 1) (h3 : w.bits 21 10 = immBits imm 1 10)
    (h4 : w.bits 31 1 = immBits imm 20 1) (hlow : -2 ^ 20 ≤ imm) (hhigh : imm < 2 ^ 20)
    (heven : 2 ∣ imm) : w.signedJ = imm := by
  refine bmod_eq_of_emod 20 ?_ hlow hhigh
  rw [h1, h2, h3, h4, natCast_immBits, natCast_immBits, natCast_immBits, natCast_immBits]
  omega

end Immediates

/-- Fields that fit are found again in the word that is made of them. -/
theorem fields_encode (ho : opcode < 128) (hx : x.Fit) :
    (x.encode opcode).fields x.format = x := by
  have hcode := toNat_encode ho hx
  have hbits (low n : Nat) : (x.encode opcode).bits low n = x.code opcode / 2 ^ low % 2 ^ n := by
    rw [InstWord.bits, hcode]
  cases x with
  | R f3 f7 rd rs1 rs2 =>
    simp only [Fit] at hx
    simp only [format, InstWord.fields, R.injEq, hbits, code]
    omega
  | I f3 rd rs1 imm =>
    have h1 := immBits_lt imm 0 12
    simp only [Fit] at hx
    simp only [format, InstWord.fields, I.injEq]
    refine ⟨?_, ?_, ?_, signedI_of_pieces ?_ hx.2.2.2.1 hx.2.2.2.2⟩
    all_goals
      simp only [hbits, code]
      omega
  | S f3 rs1 rs2 imm =>
    have h1 := immBits_lt imm 0 5
    have h2 := immBits_lt imm 5 7
    simp only [Fit] at hx
    simp only [format, InstWord.fields, S.injEq]
    refine ⟨?_, ?_, ?_, signedS_of_pieces ?_ ?_ hx.2.2.2.1 hx.2.2.2.2⟩
    all_goals
      simp only [hbits, code]
      omega
  | B f3 rs1 rs2 imm =>
    have h1 := immBits_lt imm 11 1
    have h2 := immBits_lt imm 1 4
    have h3 := immBits_lt imm 5 6
    have h4 := immBits_lt imm 12 1
    obtain ⟨h5, h6, h7, h8, h9, h10⟩ := hx
    simp only [format, InstWord.fields, B.injEq]
    refine ⟨?_, ?_, ?_, signedB_of_pieces ?_ ?_ ?_ ?_ h8 h9 h10⟩
    all_goals
      simp only [hbits, code]
      omega
  | U rd imm =>
    have h1 := immBits_lt imm 12 20
    obtain ⟨h2, h3, h4, h5⟩ := hx
    simp only [format, InstWord.fields, U.injEq]
    refine ⟨?_, signedU_of_pieces ?_ h3 h4 h5⟩
    all_goals
      simp only [hbits, code]
      omega
  | J rd imm =>
    have h1 := immBits_lt imm 12 8
    have h2 := immBits_lt imm 11 1
    have h3 := immBits_lt imm 1 10
    have h4 := immBits_lt imm 20 1
    obtain ⟨h5, h6, h7, h8⟩ := hx
    simp only [format, InstWord.fields, J.injEq]
    refine ⟨?_, signedJ_of_pieces ?_ ?_ ?_ ?_ h6 h7 h8⟩
    all_goals
      simp only [hbits, code]
      omega

end Fields

end FiveStage
