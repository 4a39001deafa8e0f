import Mathlib.Data.Nat.Digits.Defs
import Mathlib.Data.List.Forall2
import FiveStage.Proofs.Tokens
import FiveStage.Text.Unsigned

/-! # Hexadecimal numerals

A numeral of one or more hexadecimal digits of either case stands for a number. Reading it gives
that number, unless it needs more than 64 bits (`readUnsigned_eq_ok_iff`), and every number of 64
bits is read back from the digits that are written for it, with any number of zeros in front
(`hexNumeral_toDigits`). -/

namespace FiveStage.Text

/-- The hexadecimal digits by their values, with small letters. -/
def lowercaseDigits : List Char :=
  ['0', '1', '2', '3', '4', '5', '6', '7', '8', '9', 'a', 'b', 'c', 'd', 'e', 'f']

/-- The hexadecimal digits by their values, with capital letters. -/
def uppercaseDigits : List Char :=
  ['0', '1', '2', '3', '4', '5', '6', '7', '8', '9', 'A', 'B', 'C', 'D', 'E', 'F']

/-- A hexadecimal digit of either case, and its value. -/
def HexDigit (c : Char) (d : Nat) : Prop :=
  lowercaseDigits[d]? = some c ∨ uppercaseDigits[d]? = some c

/-- A numeral of one or more hexadecimal digits, and its value. -/
def HexNumeral (ds : List Char) (n : Nat) : Prop :=
  ds ≠ [] ∧ ∃ vs, List.Forall₂ HexDigit ds vs ∧ Nat.ofDigits 16 vs.reverse = n

section Digits

variable {c : Char} {d : Nat}

theorem HexDigit.lt (h : HexDigit c d) : d < 16 := by
  rcases h with h | h
  · exact (List.getElem?_eq_some_iff.mp h).1
  · exact (List.getElem?_eq_some_iff.mp h).1

theorem HexDigit.digitValue (h : HexDigit c d) : digitValue c = d := by
  have hd := h.lt
  rcases h with h | h
  · have key : ∀ d < 16, lowercaseDigits[d]?.map Text.digitValue = some d := by decide +kernel
    simpa [h] using key d hd
  · have key : ∀ d < 16, uppercaseDigits[d]?.map Text.digitValue = some d := by decide +kernel
    simpa [h] using key d hd

/-- The characters with a value below sixteen are the hexadecimal digits. -/
theorem hexDigit_of_digitValue (h : digitValue c < 16) : HexDigit c (digitValue c) := by
  have code (low high : Char) (hlow : low ≤ c) (hhigh : c ≤ high) :
      ∃ k ≤ high.toNat - low.toNat, c = Char.ofNat (low.toNat + k) := by
    have h1 : low.toNat ≤ c.toNat := hlow
    have h2 : c.toNat ≤ high.toNat := hhigh
    refine ⟨c.toNat - low.toNat, by omega, ?_⟩
    rw [Nat.add_sub_cancel' h1, Char.ofNat_toNat]
  by_cases hdigit : '0' ≤ c ∧ c ≤ '9'
  · obtain ⟨k, hk, rfl⟩ := code '0' '9' hdigit.1 hdigit.2
    have key : ∀ k ≤ 9, HexDigit (Char.ofNat (48 + k)) (digitValue (Char.ofNat (48 + k))) := by
      unfold HexDigit
      decide +kernel
    exact key k hk
  by_cases hlower : 'a' ≤ c ∧ c ≤ 'f'
  · obtain ⟨k, hk, rfl⟩ := code 'a' 'f' hlower.1 hlower.2
    have key : ∀ k ≤ 5, HexDigit (Char.ofNat (97 + k)) (digitValue (Char.ofNat (97 + k))) := by
      unfold HexDigit
      decide +kernel
    exact key k hk
  by_cases hupper : 'A' ≤ c ∧ c ≤ 'F'
  · obtain ⟨k, hk, rfl⟩ := code 'A' 'F' hupper.1 hupper.2
    have key : ∀ k ≤ 5, HexDigit (Char.ofNat (65 + k)) (digitValue (Char.ofNat (65 + k))) := by
      unfold HexDigit
      decide +kernel
    exact key k hk
  · rw [digitValue, if_neg hdigit, if_neg hlower, if_neg hupper] at h
    exact absurd h (by decide)

theorem not_hexDigit_plus : ¬ HexDigit '+' d := by
  intro h
  have hlt := h.lt
  rw [← h.digitValue] at hlt
  exact absurd hlt (by decide)

theorem not_hexDigit_x : ¬ HexDigit 'x' d ∧ ¬ HexDigit 'X' d := by
  constructor
  · intro h
    have hlt := h.lt
    rw [← h.digitValue] at hlt
    exact absurd hlt (by decide)
  · intro h
    have hlt := h.lt
    rw [← h.digitValue] at hlt
    exact absurd hlt (by decide)

end Digits

section Reading

/-- The value of digits, the first of which is the highest. -/
theorem ofDigits_reverse_cons (d : Nat) (vs : List Nat) :
    Nat.ofDigits 16 (d :: vs).reverse = d * 16 ^ vs.length + Nat.ofDigits 16 vs.reverse := by
  rw [List.reverse_cons, Nat.ofDigits_append, Nat.ofDigits_singleton, List.length_reverse,
    Nat.add_comm, Nat.mul_comm]

/-- Reading goes on while the value fits, which it does if it fits in the end. -/
theorem readDigits_eq_ok_iff {ds : List Char} {value n : Nat} (hvalue : value < numeralLimit) :
    readDigits 16 value ds = .ok n ↔
      ∃ vs, List.Forall₂ HexDigit ds vs ∧
        n = value * 16 ^ vs.length + Nat.ofDigits 16 vs.reverse ∧ n < numeralLimit := by
  induction ds generalizing value with
  | nil =>
    simp only [readDigits, List.forall₂_nil_left_iff, Except.ok.injEq]
    constructor
    · rintro rfl
      exact ⟨[], rfl, by simp, hvalue⟩
    · rintro ⟨_, rfl, hn, -⟩
      simpa using hn.symm
  | cons c ds ih =>
    rw [readDigits]
    constructor
    · intro h
      split at h
      next hd =>
        dsimp only at h
        split at h
        next hfits =>
          obtain ⟨vs, hvs, hn, hlt⟩ := (ih hfits).mp h
          refine ⟨digitValue c :: vs, .cons (hexDigit_of_digitValue hd) hvs, ?_, hlt⟩
          rw [hn, ofDigits_reverse_cons, List.length_cons]
          ring
        next => cases h
      next => cases h
    · rintro ⟨_, hall, hn, hlt⟩
      obtain ⟨d, vs, hc, hvs, rfl⟩ := List.forall₂_cons_left_iff.mp hall
      have hstep : n = (value * 16 + d) * 16 ^ vs.length + Nat.ofDigits 16 vs.reverse := by
        rw [hn, ofDigits_reverse_cons, List.length_cons]
        ring
      have hfits : value * 16 + d < numeralLimit := by
        have hle : value * 16 + d ≤ (value * 16 + d) * 16 ^ vs.length :=
          Nat.le_mul_of_pos_right _ (Nat.pow_pos (by decide))
        omega
      simp only [hc.digitValue, hc.lt, hfits, if_true]
      exact (ih hfits).mpr ⟨vs, hvs, hstep, hlt⟩

/-- A number is read from one or more digits behind an optional plus sign. -/
theorem readUnsigned_eq_ok_iff {s : List Char} {n : Nat} :
    readUnsigned 16 s = .ok n ↔
      ∃ sign ds, (sign = [] ∨ sign = ['+']) ∧ s = sign ++ ds ∧ HexNumeral ds n ∧
        n < numeralLimit := by
  have digits (ds : List Char) :
      readDigits 16 0 ds = .ok n ↔
        ∃ vs, List.Forall₂ HexDigit ds vs ∧ Nat.ofDigits 16 vs.reverse = n ∧ n < numeralLimit := by
    rw [readDigits_eq_ok_iff (by decide)]
    simp only [Nat.zero_mul, Nat.zero_add, eq_comm]
  constructor
  · intro h
    unfold readUnsigned at h
    split at h
    · cases h
    next rest =>
      split at h
      · cases h
      next hne =>
        obtain ⟨vs, hvs, hn, hlt⟩ := (digits rest).mp h
        exact ⟨['+'], rest, .inr rfl, rfl, ⟨by simpa using hne, vs, hvs, hn⟩, hlt⟩
    next hne _ =>
      obtain ⟨vs, hvs, hn, hlt⟩ := (digits s).mp h
      exact ⟨[], s, .inl rfl, rfl, ⟨hne, vs, hvs, hn⟩, hlt⟩
  · rintro ⟨sign, ds, hsign, rfl, ⟨hne, vs, hvs, hn⟩, hlt⟩
    have hread := (digits ds).mpr ⟨vs, hvs, hn, hlt⟩
    rcases hsign with rfl | rfl
    · -- without the sign the first character is a digit
      rw [List.nil_append]
      unfold readUnsigned
      split
      · exact absurd rfl hne
      · obtain ⟨_, _, hplus, -⟩ := List.forall₂_cons_left_iff.mp hvs
        exact absurd hplus not_hexDigit_plus
      · exact hread
    · rw [List.singleton_append, readUnsigned, if_neg (by simpa using hne)]
      exact hread

end Reading

section Writing

theorem hexDigit_digitChar {d : Nat} (h : d < 16) :
    HexDigit d.digitChar d ∧ HexDigit d.digitChar.toUpper d := by
  have key : ∀ d < 16, HexDigit d.digitChar d ∧ HexDigit d.digitChar.toUpper d := by
    unfold HexDigit
    decide +kernel
  exact key d h

/-- The digits that are written for a number have its value. -/
theorem exists_values_toDigits (n : Nat) :
    ∃ vs : List Nat, (∀ v ∈ vs, v < 16) ∧ Nat.toDigits 16 n = vs.map Nat.digitChar ∧
      Nat.ofDigits 16 vs.reverse = n := by
  induction n using Nat.strongRecOn with
  | ind n ih =>
    rw [Nat.toDigits_eq_if (by decide)]
    split
    next hn =>
      exact ⟨[n], List.forall_mem_singleton.mpr hn, rfl, Nat.ofDigits_singleton⟩
    next hn =>
      obtain ⟨vs, hlt, hvs, hvalue⟩ := ih (n / 16) (Nat.div_lt_self (by omega) (by decide))
      refine ⟨vs ++ [n % 16], ?_, ?_, ?_⟩
      · intro v hv
        rcases List.mem_append.mp hv with hv | hv
        · exact hlt v hv
        · rw [List.mem_singleton.mp hv]
          exact Nat.mod_lt _ (by decide)
      · rw [hvs, List.map_append, List.map_singleton]
      · rw [List.reverse_append, List.reverse_singleton, List.singleton_append, Nat.ofDigits_cons,
          hvalue]
        exact Nat.mod_add_div n 16

/-- The digits written for a number, each in either case, with zeros in front of them. -/
theorem hexNumeral_toDigits {n : Nat} {ds : List Char} (zeros : Nat)
    (hds : List.Forall₂ (fun c c' => c' = c ∨ c' = c.toUpper) (Nat.toDigits 16 n) ds) :
    HexNumeral (List.replicate zeros '0' ++ ds) n := by
  obtain ⟨vs, hlt, hvs, hvalue⟩ := exists_values_toDigits n
  rw [hvs, List.forall₂_map_left_iff] at hds
  have hdigits : List.Forall₂ HexDigit ds vs := by
    refine ((List.forall₂_and_left _ _).mpr ⟨hlt, hds⟩).flip.imp ?_
    rintro c v ⟨hv, rfl | rfl⟩
    · exact (hexDigit_digitChar hv).1
    · exact (hexDigit_digitChar hv).2
  have hzeros : List.Forall₂ HexDigit (List.replicate zeros '0') (List.replicate zeros 0) := by
    induction zeros with
    | zero => exact .nil
    | succ zeros ih => exact .cons (.inl rfl) ih
  refine ⟨?_, List.replicate zeros 0 ++ vs, List.rel_append hzeros hdigits, ?_⟩
  · intro hnil
    have hlength := hds.length_eq
    rw [(List.append_eq_nil_iff.mp hnil).2, List.length_nil, List.length_eq_zero_iff] at hlength
    rw [hlength] at hvs
    exact Nat.toDigits_ne_nil hvs
  · rw [List.reverse_append, List.reverse_replicate, Nat.ofDigits_append_replicate_zero, hvalue]

end Writing

end FiveStage.Text
