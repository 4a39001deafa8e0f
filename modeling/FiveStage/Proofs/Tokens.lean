import Mathlib.Data.List.Basic
import FiveStage.Text.Numeral

/-! # Tokens

What the texts of the library are put together from: numerals, which tell the numbers they stand
for, and other tokens without blanks and punctuation. A text is taken apart again at the first and
at the last place where a character stands that the tokens do not have. -/

namespace FiveStage.Text

section Cutting

variable {α : Type} {c : α} {a a' b b' : List α}

/-- There is one way to cut a list at the first place where something stands. -/
theorem cut_first (ha : c ∉ a) (ha' : c ∉ a') (h : a ++ c :: b = a' ++ c :: b') :
    a = a' ∧ b = b' := by
  induction a generalizing a' with
  | nil =>
    cases a' with
    | nil => exact ⟨rfl, (List.cons.inj h).2⟩
    | cons x a' =>
      have hx : c = x := (List.cons.inj h).1
      exact absurd (hx ▸ List.mem_cons_self) ha'
  | cons x a ih =>
    cases a' with
    | nil =>
      have hx : x = c := (List.cons.inj h).1
      exact absurd (hx ▸ List.mem_cons_self) ha
    | cons x' a' =>
      obtain ⟨rfl, htail⟩ := List.cons.inj h
      obtain ⟨rfl, rfl⟩ := ih (fun hm => ha (.tail _ hm)) (fun hm => ha' (.tail _ hm)) htail
      exact ⟨rfl, rfl⟩

/-- There is one way to cut it at the last place. -/
theorem cut_last (hb : c ∉ b) (hb' : c ∉ b') (h : a ++ c :: b = a' ++ c :: b') :
    a = a' ∧ b = b' := by
  have hrev := congrArg List.reverse h
  simp only [List.reverse_append, List.reverse_cons, List.append_assoc, List.singleton_append]
    at hrev
  obtain ⟨h1, h2⟩ := cut_first (by simpa using hb) (by simpa using hb') hrev
  exact ⟨List.reverse_injective h2, List.reverse_injective h1⟩

/-- What is filled up from behind is told from the filling when it does not end in it. -/
theorem unfill {m m' : Nat} (ha : a.getLast? ≠ some c) (ha' : a'.getLast? ≠ some c)
    (h : a ++ List.replicate m c = a' ++ List.replicate m' c) : a = a' := by
  induction m generalizing m' with
  | zero =>
    cases m' with
    | zero => simpa using h
    | succ m' =>
      rw [List.replicate_zero, List.append_nil] at h
      exact absurd (by rw [h]; simp [List.getLast?_replicate]) ha
  | succ m ih =>
    cases m' with
    | zero =>
      rw [List.replicate_zero, List.append_nil] at h
      exact absurd (by rw [← h]; simp [List.getLast?_replicate]) ha'
    | succ m' =>
      rw [List.replicate_succ', List.replicate_succ', ← List.append_assoc, ← List.append_assoc] at h
      exact ih (List.append_inj_left' h rfl)

end Cutting

section Digits

variable {b n n' : Nat}

theorem mem_toDigits (hb : 1 < b) {c : Char} (hc : c ∈ Nat.toDigits b n) :
    ∃ d < b, c = d.digitChar := by
  induction n using Nat.strongRecOn with
  | ind n ih =>
    rw [Nat.toDigits_eq_if hb] at hc
    split at hc
    next hn => exact ⟨n, hn, List.mem_singleton.mp hc⟩
    next hn =>
      rcases List.mem_append.mp hc with hc | hc
      · exact ih _ (Nat.div_lt_self (by omega) hb) hc
      · exact ⟨n % b, Nat.mod_lt _ (by omega), List.mem_singleton.mp hc⟩

theorem digitChar_injective (hn : n < 16) (hn' : n' < 16) (h : n.digitChar = n'.digitChar) :
    n = n' := by
  have key : ∀ n < 16, ∀ n' < 16, n.digitChar = n'.digitChar → n = n' := by decide
  exact key n hn n' hn' h

/-- Digits stand for one number. -/
theorem toDigits_injective (hb : 1 < b) (hb' : b ≤ 16) (h : Nat.toDigits b n = Nat.toDigits b n') :
    n = n' := by
  induction n using Nat.strongRecOn generalizing n' with
  | ind n ih =>
    have hlt (n : Nat) : n % b < 16 := Nat.lt_of_lt_of_le (Nat.mod_lt _ (by omega)) hb'
    rw [Nat.toDigits_eq_if hb, Nat.toDigits_eq_if (n := n') hb] at h
    split at h <;> split at h
    next hn hn' =>
      exact digitChar_injective (by omega) (by omega) (List.singleton_inj.mp h)
    next hn hn' =>
      have hlen := congrArg List.length h
      have hpos := Nat.length_toDigits_pos (b := b) (n := n' / b)
      simp at hlen
    next hn hn' =>
      have hlen := congrArg List.length h
      have hpos := Nat.length_toDigits_pos (b := b) (n := n / b)
      simp at hlen
    next hn hn' =>
      have hdiv := ih _ (Nat.div_lt_self (by omega) hb) (List.append_inj_left' h rfl)
      have hmod := digitChar_injective (hlt n) (hlt n')
        (List.singleton_inj.mp (List.append_inj_right' h rfl))
      rw [← Nat.div_add_mod n b, ← Nat.div_add_mod n' b, hdiv, hmod]

end Digits

/-- A text on one line without blanks and punctuation. -/
def Plain (s : String) : Prop := ∀ c ∈ s.toList, c ∉ [' ', ',', '(', ')', '|', '\n']

-- The instance is named, since among all those of the library one is found that does not evaluate.
instance (s : String) : Decidable (Plain s) :=
  List.decidableBAll (fun c => c ∉ [' ', ',', '(', ')', '|', '\n']) s.toList

theorem Plain.notMem {s : String} (hs : Plain s) {c : Char}
    (hc : c ∈ [' ', ',', '(', ')', '|', '\n']) :
    c ∉ s.toList := fun hm => hs c hm hc

theorem Plain.append {s t : String} (hs : Plain s) (ht : Plain t) : Plain (s ++ t) := by
  intro c hc
  rw [String.toList_append, List.mem_append] at hc
  exact hc.elim (hs c) (ht c)

/-- A text is cut at a mark in one way when the character that the mark begins with is not to be
found in front of it. -/
theorem cut_text {mark a a' b b' : String} {c : Char} {t : List Char}
    (hmark : mark.toList = c :: t) (ha : c ∉ a.toList) (ha' : c ∉ a'.toList)
    (h : a ++ (mark ++ b) = a' ++ (mark ++ b')) : a = a' ∧ b = b' := by
  have hlist := congrArg String.toList h
  simp only [String.toList_append, hmark, List.cons_append] at hlist
  obtain ⟨h1, h2⟩ := cut_first ha ha' hlist
  exact ⟨String.toList_inj.mp h1, String.toList_inj.mp (List.append_cancel_left h2)⟩

/-- The last token of a text is the same however the text is filled up with blanks. -/
theorem last_token {front front' token token' : String} {m m' : Nat} (ht : token ≠ "")
    (ht' : token' ≠ "") (hb : ' ' ∉ token.toList) (hb' : ' ' ∉ token'.toList)
    (h : (front ++ " " ++ token).toList ++ List.replicate m ' ' =
      (front' ++ " " ++ token').toList ++ List.replicate m' ' ') :
    front = front' ∧ token = token' := by
  have hlist (a t : String) : (a ++ " " ++ t).toList = a.toList ++ ' ' :: t.toList := by
    simp [String.toList_append]
  have hend {a t : String} (hne : t ≠ "") (hbl : ' ' ∉ t.toList) :
      (a.toList ++ ' ' :: t.toList).getLast? ≠ some ' ' := by
    intro hlast
    have hne' : t.toList ≠ [] := fun hnil => hne (String.toList_eq_nil_iff.mp hnil)
    rw [List.getLast?_append_of_ne_nil _ (List.cons_ne_nil _ _), List.getLast?_cons_of_ne_nil hne']
      at hlast
    exact hbl (List.mem_of_getLast? hlast)
  rw [hlist, hlist] at h
  obtain ⟨h1, h2⟩ := cut_last hb hb' (unfill (hend ht hb) (hend ht' hb') h)
  exact ⟨String.toList_inj.mp h1, String.toList_inj.mp h2⟩

section Numerals

theorem plain_toDigits {b n : Nat} (hb : 1 < b) (hb' : b ≤ 16) :
    Plain (String.ofList (Nat.toDigits b n)) := by
  have key : ∀ d < 16, d.digitChar ∉ [' ', ',', '(', ')', '|', '\n'] := by decide
  intro c hc
  rw [String.toList_ofList] at hc
  obtain ⟨d, hd, rfl⟩ := mem_toDigits hb hc
  exact key d (by omega)

theorem plain_decimal (n : Nat) : Plain (decimal n) := plain_toDigits (by decide) (by decide)

theorem plain_hex (n : Nat) : Plain (hex n) :=
  .append (by decide) (plain_toDigits (by decide) (by decide))

theorem plain_signedDecimal (z : Int) : Plain (signedDecimal z) := by
  cases z with
  | ofNat n => exact plain_decimal n
  | negSucc n => exact .append (by decide) (plain_decimal _)

theorem decimal_injective {n n' : Nat} (h : decimal n = decimal n') : n = n' :=
  toDigits_injective (by decide) (by decide) (String.ofList_injective h)

theorem hex_injective {n n' : Nat} (h : hex n = hex n') : n = n' :=
  toDigits_injective (by decide) (by decide)
    (String.ofList_injective ((String.append_right_inj _).mp h))

/-- No numeral of a natural number begins with a sign. -/
theorem decimal_ne_minus (n : Nat) (s : String) : decimal n ≠ "-" ++ s := by
  intro h
  have hmem : '-' ∈ (decimal n).toList := by
    rw [h, String.toList_append]
    exact List.mem_cons_self
  rw [decimal, String.toList_ofList] at hmem
  exact absurd (Nat.isDigit_of_mem_toDigits (by decide) (by decide) hmem) (by decide)

theorem signedDecimal_injective {z z' : Int} (h : signedDecimal z = signedDecimal z') : z = z' := by
  cases z with
  | ofNat n =>
    cases z' with
    | ofNat n' => exact congrArg Int.ofNat (decimal_injective h)
    | negSucc n' => exact absurd h (decimal_ne_minus _ _)
  | negSucc n =>
    cases z' with
    | ofNat n' => exact absurd h.symm (decimal_ne_minus _ _)
    | negSucc n' =>
      exact congrArg Int.negSucc
        (Nat.succ.inj (decimal_injective ((String.append_right_inj _).mp h)))

end Numerals

end FiveStage.Text
