import FiveStage.Instruction.Decode
import FiveStage.Proofs.Fields

/-! # Guarded operations

Operations that are defined for some operands only, each guarded by a check of its operands that
aborts when it fails: shifts, subtractions, and the two bit-field operations, which are documented
for fields inside a word. What the decoder computes by them it computes without an abort
(`decode_eq`). -/

namespace FiveStage

/-- Why a guarded operation aborts. -/
inductive Abort
  /-- an index that names no register -/
  | register (index : Nat)
  /-- an index that names no set of a cache -/
  | cacheSet (index sets : Nat)
  /-- a slice that is not inside the bytes it is taken from -/
  | slice (start stop length : Nat)
  /-- bytes copied to a place of another length -/
  | copy (source target : Nat)
  /-- a shift by the width of the operand or more -/
  | shift (amount width : Nat)
  /-- a bit field whose bounds are no bits of a word or stand the wrong way round -/
  | field (high low : Nat)
  /-- a sign bit that is no bit of a word -/
  | signBit (bit : Nat)
  /-- a number taken away from a smaller one -/
  | underflow (a b : Nat)
  deriving DecidableEq, Repr

/-- A result, unless an operation on the way to it has aborted. -/
abbrev Guarded (α : Type) := Except Abort α

namespace Guarded

@[simp] theorem ok_bind {α β : Type} (a : α) (f : α → Guarded β) : (Except.ok a >>= f) = f a := rfl

@[simp] theorem pure_eq {α : Type} (a : α) : (pure a : Guarded α) = .ok a := rfl

section Words

variable {n : Nat}

/-- A shift to the left. -/
def shiftLeft (x : BitVec n) (amount : Nat) : Guarded (BitVec n) :=
  if amount < n then .ok (x <<< amount) else .error (.shift amount n)

/-- A shift to the right that fills in zeros. -/
def shiftRight (x : BitVec n) (amount : Nat) : Guarded (BitVec n) :=
  if amount < n then .ok (x >>> amount) else .error (.shift amount n)

/-- A shift to the right that fills in copies of the sign. -/
def shiftRightSigned (x : BitVec n) (amount : Nat) : Guarded (BitVec n) :=
  if amount < n then .ok (x.sshiftRight amount) else .error (.shift amount n)

/-- A difference of numbers. -/
def subtract (a b : Nat) : Guarded Nat := if b ≤ a then .ok (a - b) else .error (.underflow a b)

/-- A difference of words. -/
def subtractWord (a b : Word) : Guarded Word :=
  if b.toNat ≤ a.toNat then .ok (a - b) else .error (.underflow a.toNat b.toNat)

variable {x : BitVec n} {amount : Nat}

theorem shiftLeft_eq (h : amount < n) : shiftLeft x amount = .ok (x <<< amount) := if_pos h

theorem shiftRight_eq (h : amount < n) : shiftRight x amount = .ok (x >>> amount) := if_pos h

theorem shiftRightSigned_eq (h : amount < n) :
    shiftRightSigned x amount = .ok (x.sshiftRight amount) := if_pos h

theorem subtract_eq {a b : Nat} (h : b ≤ a) : subtract a b = .ok (a - b) := if_pos h

end Words

section BitFields

/-- The word whose low bits are ones, for fewer of them than a word has bits. -/
def ones (width : Nat) : Guarded Word := do
  let power ← shiftLeft (1 : Word) width
  subtractWord power 1

/-- The word whose low bits are ones. -/
def mask (width : Nat) : Guarded Word :=
  if width = 64 then .ok (BitVec.allOnes 64) else ones width

/-- The bits `high` down to `low` of a word, moved to the right end. -/
def extractBits (w : Word) (high low : Nat) : Guarded Word :=
  if high < 64 ∧ low ≤ high then do
    let span ← subtract high low
    let ones ← mask (span + 1)
    let shifted ← shiftRight w low
    return shifted &&& ones
  else .error (.field high low)

/-- The low bits of a word up to a sign bit, widened by copies of it. -/
def signExtend (w : Word) (bit : Nat) : Guarded Word :=
  if bit < 64 then do
    let distance ← subtract 63 bit
    let shifted ← shiftLeft w distance
    shiftRightSigned shifted distance
  else .error (.signBit bit)

theorem ones_eq {width : Nat} (h : width < 64) : ones width = .ok (.ofNat 64 (2 ^ width - 1)) := by
  have hbound : 2 ^ width < 2 ^ 64 := Nat.pow_lt_pow_right (by decide) h
  have hpow : ((1 : Word) <<< width).toNat = 2 ^ width := by
    rw [BitVec.toNat_shiftLeft, Nat.shiftLeft_eq]
    exact (congrArg (· % 2 ^ 64) (Nat.one_mul _)).trans (Nat.mod_eq_of_lt hbound)
  have hle : (1 : Word).toNat ≤ ((1 : Word) <<< width).toNat := hpow ▸ Nat.two_pow_pos width
  rw [ones, shiftLeft_eq h, ok_bind, subtractWord, if_pos hle]
  congr 1
  apply BitVec.eq_of_toNat_eq
  rw [BitVec.toNat_sub_of_le (BitVec.le_def.mpr hle), hpow, BitVec.toNat_ofNat,
    Nat.mod_eq_of_lt (by omega)]
  rfl

theorem mask_eq {width : Nat} (h : width ≤ 64) : mask width = .ok (.ofNat 64 (2 ^ width - 1)) := by
  unfold mask
  split
  next hw => rw [hw]; rfl
  next hw => exact ones_eq (by omega)

/-- Masking with low ones keeps the low bits. -/
theorem toNat_and_ones (w : Word) {width : Nat} (h : width ≤ 64) :
    (w &&& .ofNat 64 (2 ^ width - 1)).toNat = w.toNat % 2 ^ width := by
  have hbound : 2 ^ width ≤ 2 ^ 64 := Nat.pow_le_pow_right (by decide) h
  have hpos := Nat.two_pow_pos width
  rw [BitVec.toNat_and, BitVec.toNat_ofNat, Nat.mod_eq_of_lt (by omega),
    Nat.and_two_pow_sub_one_eq_mod]

/-- A field is cut out as a shift and a mask say. -/
theorem extractBits_eq (w : Word) {high low : Nat} (h : high < 64) (hle : low ≤ high) :
    extractBits w high low = .ok (w.field high low) := by
  rw [extractBits, if_pos ⟨h, hle⟩, subtract_eq hle, ok_bind, mask_eq (by omega), ok_bind,
    shiftRight_eq (by omega), ok_bind, pure_eq]
  congr 1
  apply BitVec.eq_of_toNat_eq
  have hspan : high - low + 1 = high + 1 - low := by omega
  have hbound : 2 ^ (high + 1 - low) ≤ 2 ^ 64 := Nat.pow_le_pow_right (by decide) (by omega)
  rw [Word.field, BitVec.toNat_setWidth, BitVec.extractLsb'_toNat, toNat_and_ones _ (by omega),
    BitVec.toNat_ushiftRight, hspan,
    Nat.mod_eq_of_lt (Nat.lt_of_lt_of_le (Nat.mod_lt _ (Nat.two_pow_pos _)) hbound)]

/-- Two shifts widen a field by its sign. -/
theorem signExtend_eq (w : Word) {bit : Nat} (h : bit < 64) :
    signExtend w bit = .ok (signExtendFrom w bit) := by
  rw [signExtend, if_pos h, subtract_eq (by omega), ok_bind, shiftLeft_eq (by omega), ok_bind,
    shiftRightSigned_eq (by omega)]
  congr 1
  apply BitVec.eq_of_getLsbD_eq
  intro i hi
  rw [signExtendFrom, BitVec.getLsbD_sshiftRight, BitVec.getLsbD_signExtend]
  have hsign : (w <<< (63 - bit)).msb = w.getLsbD bit := by
    have hat : 63 - (63 - bit) = bit := by omega
    rw [BitVec.msb_eq_getLsbD_last, BitVec.getLsbD_shiftLeft]
    simp [hat]
  have hsign' : (BitVec.setWidth (bit + 1) w).msb = w.getLsbD bit := by
    simp [BitVec.msb_eq_getLsbD_last]
  rw [hsign, hsign']
  by_cases hb : i < bit + 1
  · have hin : 63 - bit + i < 64 := by omega
    have hin' : ¬ 64 ≤ i ∧ ¬ 63 - bit + i < 63 - bit ∧ 63 - bit + i - (63 - bit) = i := by omega
    simp [hi, hb, hin, hin']
  · have hout : ¬ 64 ≤ i ∧ ¬ 63 - bit + i < 64 := by omega
    simp [hi, hb, hout]

end BitFields

section Immediates

variable (w : InstWord)

/-- The immediates as the decoder puts them together, field by field. -/
def immI : Guarded Word := do
  let imm ← extractBits (w.setWidth 64) 31 20
  signExtend imm 11

def immS : Guarded Word := do
  let high ← extractBits (w.setWidth 64) 31 25
  let low ← extractBits (w.setWidth 64) 11 7
  let high ← shiftLeft high 5
  signExtend (high ||| low) 11

def immB : Guarded Word := do
  let sign ← extractBits (w.setWidth 64) 31 31
  let sign ← shiftLeft sign 12
  let top ← extractBits (w.setWidth 64) 7 7
  let top ← shiftLeft top 11
  let high ← extractBits (w.setWidth 64) 30 25
  let high ← shiftLeft high 5
  let low ← extractBits (w.setWidth 64) 11 8
  let low ← shiftLeft low 1
  signExtend (sign ||| top ||| high ||| low) 12

def immU : Guarded Word := do
  let imm ← extractBits (w.setWidth 64) 31 12
  let imm ← shiftLeft imm 12
  signExtend imm 31

def immJ : Guarded Word := do
  let sign ← extractBits (w.setWidth 64) 31 31
  let sign ← shiftLeft sign 20
  let high ← extractBits (w.setWidth 64) 19 12
  let high ← shiftLeft high 12
  let middle ← extractBits (w.setWidth 64) 20 20
  let middle ← shiftLeft middle 11
  let low ← extractBits (w.setWidth 64) 30 21
  let low ← shiftLeft low 1
  signExtend (sign ||| high ||| middle ||| low) 20

/-- The immediate that a format lays out. -/
def immediate : Format → Guarded Word
  | .R => .ok 0
  | .I => immI w
  | .S => immS w
  | .B => immB w
  | .U => immU w
  | .J => immJ w

theorem toNat_field (high low : Nat) :
    (Word.field (w.setWidth 64) high low).toNat = w.bits low (high + 1 - low) := by
  have hw : w.toNat < 2 ^ 32 := w.isLt
  have hlt : w.toNat / 2 ^ low % 2 ^ (high + 1 - low) < 2 ^ 64 :=
    Nat.lt_of_le_of_lt (Nat.mod_le _ _) (Nat.lt_of_le_of_lt (Nat.div_le_self _ _) (by omega))
  rw [Word.field, BitVec.toNat_setWidth, BitVec.extractLsb'_toNat, BitVec.toNat_setWidth,
    Nat.shiftRight_eq_div_pow, Nat.mod_eq_of_lt (Nat.lt_trans hw (by decide)),
    Nat.mod_eq_of_lt hlt, InstWord.bits]

/-- A part of the word moved to its place in the immediate. -/
theorem toNat_placed (high low place : Nat) (h : high < 32) (hp : place ≤ 32) :
    (Word.field (w.setWidth 64) high low <<< place).toNat =
      w.bits low (high + 1 - low) * 2 ^ place := by
  have hbits : w.bits low (high + 1 - low) < 2 ^ 32 :=
    Nat.lt_of_lt_of_le (w.bits_lt _ _) (Nat.pow_le_pow_right (by decide) (by omega))
  have hlt : w.bits low (high + 1 - low) * 2 ^ place < 2 ^ 32 * 2 ^ 32 :=
    Nat.mul_lt_mul_of_lt_of_le hbits (Nat.pow_le_pow_right (by decide) hp) (Nat.two_pow_pos 32)
  rw [BitVec.toNat_shiftLeft, toNat_field, Nat.shiftLeft_eq,
    Nat.mod_eq_of_lt (Nat.lt_of_lt_of_eq hlt (by decide))]

/-- Parts that do not overlap are joined by adding them. -/
theorem toNat_or {a b : Word} {i : Nat} (ha : 2 ^ i ∣ a.toNat) (hb : b.toNat < 2 ^ i) :
    (a ||| b).toNat = a.toNat + b.toNat := by
  obtain ⟨q, hq⟩ := ha
  rw [BitVec.toNat_or, hq, Nat.mul_comm, ← Nat.shiftLeft_eq, Nat.shiftLeft_add_eq_or_of_lt hb]

theorem toNat_or_four {a b c d : Word} {i j k : Nat} (hij : j ≤ i) (hjk : k ≤ j)
    (ha : 2 ^ i ∣ a.toNat) (hb : 2 ^ j ∣ b.toNat) (hb' : b.toNat < 2 ^ i) (hc : 2 ^ k ∣ c.toNat)
    (hc' : c.toNat < 2 ^ j) (hd : d.toNat < 2 ^ k) :
    (a ||| b ||| c ||| d).toNat = a.toNat + b.toNat + c.toNat + d.toNat := by
  have hab := toNat_or ha hb'
  have hj : 2 ^ j ∣ (a ||| b).toNat :=
    hab ▸ Nat.dvd_add ((Nat.pow_dvd_pow 2 hij).trans ha) hb
  have habc := toNat_or hj hc'
  have hk : 2 ^ k ∣ (a ||| b ||| c).toNat :=
    habc ▸ Nat.dvd_add ((Nat.pow_dvd_pow 2 hjk).trans hj) hc
  rw [toNat_or hk hd, habc, hab]

theorem immI_eq : immI w = .ok w.immI := by
  have h : (Word.field (w.setWidth 64) 31 20).setWidth 12 = w.extractLsb' 20 12 := by
    apply BitVec.eq_of_toNat_eq
    rw [BitVec.toNat_setWidth, toNat_field, InstWord.toNat_extract]
    exact Nat.mod_eq_of_lt (w.bits_lt 20 12)
  simp (disch := decide) only [immI, extractBits_eq, signExtend_eq, ok_bind]
  exact congrArg (fun x => Except.ok (BitVec.signExtend 64 x)) h

theorem immS_eq : immS w = .ok w.immS := by
  have h : ((Word.field (w.setWidth 64) 31 25 <<< 5)
      ||| Word.field (w.setWidth 64) 11 7).setWidth 12 =
      w.extractLsb' 25 7 ++ w.extractLsb' 7 5 := by
    have h1 : _ = w.bits 25 7 * 2 ^ 5 := toNat_placed w 31 25 5 (by decide) (by decide)
    have h2 : _ = w.bits 7 5 := toNat_field w 11 7
    have b1 := w.bits_lt 25 7
    have b2 := w.bits_lt 7 5
    apply BitVec.eq_of_toNat_eq
    rw [BitVec.toNat_setWidth, toNat_or (i := 5) (by rw [h1]; omega) (by rw [h2]; omega), h1, h2]
    simp only [toNat_append_eq, InstWord.toNat_extract]
    omega
  simp (disch := decide) only [immS, extractBits_eq, shiftLeft_eq, signExtend_eq, ok_bind]
  exact congrArg (fun x => Except.ok (BitVec.signExtend 64 x)) h

theorem immB_eq : immB w = .ok w.immB := by
  have h : ((Word.field (w.setWidth 64) 31 31 <<< 12) ||| (Word.field (w.setWidth 64) 7 7 <<< 11)
      ||| (Word.field (w.setWidth 64) 30 25 <<< 5)
      ||| (Word.field (w.setWidth 64) 11 8 <<< 1)).setWidth 13 =
      w.extractLsb' 31 1 ++ w.extractLsb' 7 1 ++ w.extractLsb' 25 6 ++ w.extractLsb' 8 4
        ++ 0#1 := by
    have h1 : _ = w.bits 31 1 * 2 ^ 12 := toNat_placed w 31 31 12 (by decide) (by decide)
    have h2 : _ = w.bits 7 1 * 2 ^ 11 := toNat_placed w 7 7 11 (by decide) (by decide)
    have h3 : _ = w.bits 25 6 * 2 ^ 5 := toNat_placed w 30 25 5 (by decide) (by decide)
    have h4 : _ = w.bits 8 4 * 2 ^ 1 := toNat_placed w 11 8 1 (by decide) (by decide)
    have b1 := w.bits_lt 31 1
    have b2 := w.bits_lt 7 1
    have b3 := w.bits_lt 25 6
    have b4 := w.bits_lt 8 4
    apply BitVec.eq_of_toNat_eq
    rw [BitVec.toNat_setWidth, toNat_or_four (i := 12) (j := 11) (k := 5) (by decide) (by decide)
      (by omega) (by omega) (by omega) (by omega) (by omega) (by omega), h1, h2, h3, h4]
    simp only [toNat_append_eq, InstWord.toNat_extract, BitVec.toNat_ofNat]
    omega
  simp (disch := decide) only [immB, extractBits_eq, shiftLeft_eq, signExtend_eq, ok_bind]
  exact congrArg (fun x => Except.ok (BitVec.signExtend 64 x)) h

theorem immU_eq : immU w = .ok w.immU := by
  have h : (Word.field (w.setWidth 64) 31 12 <<< 12).setWidth 32 =
      w.extractLsb' 12 20 ++ 0#12 := by
    have h1 : _ = w.bits 12 20 * 2 ^ 12 := toNat_placed w 31 12 12 (by decide) (by decide)
    have b1 := w.bits_lt 12 20
    apply BitVec.eq_of_toNat_eq
    rw [BitVec.toNat_setWidth, h1]
    simp only [toNat_append_eq, InstWord.toNat_extract, BitVec.toNat_ofNat]
    omega
  simp (disch := decide) only [immU, extractBits_eq, shiftLeft_eq, signExtend_eq, ok_bind]
  exact congrArg (fun x => Except.ok (BitVec.signExtend 64 x)) h

theorem immJ_eq : immJ w = .ok w.immJ := by
  have h : ((Word.field (w.setWidth 64) 31 31 <<< 20) ||| (Word.field (w.setWidth 64) 19 12 <<< 12)
      ||| (Word.field (w.setWidth 64) 20 20 <<< 11)
      ||| (Word.field (w.setWidth 64) 30 21 <<< 1)).setWidth 21 =
      w.extractLsb' 31 1 ++ w.extractLsb' 12 8 ++ w.extractLsb' 20 1 ++ w.extractLsb' 21 10
        ++ 0#1 := by
    have h1 : _ = w.bits 31 1 * 2 ^ 20 := toNat_placed w 31 31 20 (by decide) (by decide)
    have h2 : _ = w.bits 12 8 * 2 ^ 12 := toNat_placed w 19 12 12 (by decide) (by decide)
    have h3 : _ = w.bits 20 1 * 2 ^ 11 := toNat_placed w 20 20 11 (by decide) (by decide)
    have h4 : _ = w.bits 21 10 * 2 ^ 1 := toNat_placed w 30 21 1 (by decide) (by decide)
    have b1 := w.bits_lt 31 1
    have b2 := w.bits_lt 12 8
    have b3 := w.bits_lt 20 1
    have b4 := w.bits_lt 21 10
    apply BitVec.eq_of_toNat_eq
    rw [BitVec.toNat_setWidth, toNat_or_four (i := 20) (j := 12) (k := 11) (by decide) (by decide)
      (by omega) (by omega) (by omega) (by omega) (by omega) (by omega), h1, h2, h3, h4]
    simp only [toNat_append_eq, InstWord.toNat_extract, BitVec.toNat_ofNat]
    omega
  simp (disch := decide) only [immJ, extractBits_eq, shiftLeft_eq, signExtend_eq, ok_bind]
  exact congrArg (fun x => Except.ok (BitVec.signExtend 64 x)) h

/-- No bit-field operation leaves its domain. -/
theorem immediate_eq (f : Format) : immediate w f = .ok (f.immediate w) := by
  cases f with
  | R => rfl
  | I => exact immI_eq w
  | S => exact immS_eq w
  | B => exact immB_eq w
  | U => exact immU_eq w
  | J => exact immJ_eq w

end Immediates

section Decoding

variable (w : InstWord)

/-- A field of an instruction word, as it is shifted down and masked. -/
def maskedField (low ones : Nat) : Guarded Nat := do
  let shifted ← shiftRight w low
  return (shifted &&& .ofNat 32 ones).toNat

/-- Whether a class accepts a word. The upper field of a shift of 64 bits is shifted down on its
own. -/
def accepts (o : Opcode) (funct3 funct7 : Nat) : Guarded Bool :=
  match o with
  | .opImm => do
    let upper ← shiftRight w 26
    return if funct3 = 1 then upper = 0x00
      else if funct3 = 5 then upper = 0x00 ∨ upper = 0x10
      else true
  | o => .ok (o.accepts funct3 funct7)

/-- The record of a word fetched from `pc`. -/
def decode (pc : Word) : Guarded Instruction := do
  let funct3 ← maskedField w 12 0x7
  let funct7 ← maskedField w 25 0x7F
  let rd ← maskedField w 7 0x1F
  let rs1 ← maskedField w 15 0x1F
  let rs2 ← maskedField w 20 0x1F
  let i : Instruction :=
    { pc, raw := w, opcode := (w &&& 0x7F).toNat, funct3, funct7, rd, rs1, rs2
      nextPc := pc + .ofNat 64 instructionBytes
      status := .normal }
  if w = InstWord.halt then return { i with flags := { legal := true, halt := true } }
  else if w = InstWord.nop then return { i with flags := { legal := true, nop := true } }
  else
    match i.class? with
    | none => return i
    | some o =>
      let accepted ← accepts w o funct3 funct7
      if accepted then
        let imm ← immediate w o.format
        return { i with flags := o.flags, imm }
      else return i

theorem maskedField_eq {low n : Nat} (h : low < 32) (hn : n ≤ 32) :
    maskedField w low (2 ^ n - 1) = .ok (w.extractLsb' low n).toNat := by
  have hbound : 2 ^ n ≤ 2 ^ 32 := Nat.pow_le_pow_right (by decide) hn
  have hpos := Nat.two_pow_pos n
  rw [maskedField, shiftRight_eq h, ok_bind, pure_eq, BitVec.toNat_and, BitVec.toNat_ushiftRight,
    BitVec.toNat_ofNat, Nat.mod_eq_of_lt (by omega), Nat.and_two_pow_sub_one_eq_mod,
    BitVec.extractLsb'_toNat]

/-- The upper six bits are the upper seven without the last. -/
theorem upper_eq_iff {k : Nat} (hk : k < 64) : w >>> 26 = .ofNat 32 k ↔ w.funct7 / 2 = k := by
  have hw : w.toNat < 2 ^ 32 := w.isLt
  have hupper : (w >>> 26).toNat = w.funct7 / 2 := by
    rw [InstWord.funct7, InstWord.toNat_extract, BitVec.toNat_ushiftRight,
      Nat.shiftRight_eq_div_pow, InstWord.bits]
    omega
  rw [← BitVec.toNat_inj, hupper, BitVec.toNat_ofNat, Nat.mod_eq_of_lt (by omega)]

theorem accepts_eq (o : Opcode) :
    accepts w o w.funct3 w.funct7 = .ok (o.accepts w.funct3 w.funct7) := by
  cases o with
  | opImm =>
    have hzero := upper_eq_iff w (k := 0x00) (by decide)
    have hten := upper_eq_iff w (k := 0x10) (by decide)
    rw [accepts, shiftRight_eq (by decide), ok_bind, pure_eq, Opcode.accepts]
    simp only [← hzero, ← hten]
    rfl
  | _ => rfl

/-- A word is decoded without an abort. -/
theorem decode_eq (pc : Word) : decode w pc = .ok (FiveStage.decode pc w) := by
  have hopcode : (w &&& 0x7F).toNat = w.opcode := by
    rw [InstWord.opcode, BitVec.extractLsb'_toNat, BitVec.toNat_and]
    exact Nat.and_two_pow_sub_one_eq_mod w.toNat 7
  have hfunct3 : maskedField w 12 0x7 = .ok w.funct3 :=
    maskedField_eq w (n := 3) (by decide) (by decide)
  have hfunct7 : maskedField w 25 0x7F = .ok w.funct7 :=
    maskedField_eq w (n := 7) (by decide) (by decide)
  have hrd : maskedField w 7 0x1F = .ok w.rd := maskedField_eq w (n := 5) (by decide) (by decide)
  have hrs1 : maskedField w 15 0x1F = .ok w.rs1 :=
    maskedField_eq w (n := 5) (by decide) (by decide)
  have hrs2 : maskedField w 20 0x1F = .ok w.rs2 :=
    maskedField_eq w (n := 5) (by decide) (by decide)
  rw [decode, hfunct3, ok_bind, hfunct7, ok_bind, hrd, ok_bind, hrs1, ok_bind, hrs2, ok_bind,
    hopcode]
  simp only [FiveStage.decode, InstWord.flags, InstWord.immediate, InstWord.class?,
    Instruction.class?]
  by_cases hhalt : w = InstWord.halt
  · simp [hhalt]
  by_cases hnop : w = InstWord.nop
  · simp [if_neg hhalt, if_pos hnop, if_pos (Or.inr hnop)]
  cases hclass : Opcode.ofCode? w.opcode with
  | none => simp [hhalt, hnop]
  | some o =>
    simp only [accepts_eq, immediate_eq, ok_bind]
    cases o.accepts w.funct3 w.funct7 <;> simp [hhalt, hnop]

end Decoding

end Guarded

end FiveStage
