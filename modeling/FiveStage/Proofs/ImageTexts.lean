import Mathlib.Data.List.Induction
import FiveStage.Memory.ImageText
import FiveStage.Proofs.Files
import FiveStage.Proofs.Hexadecimal

/-! # Initial images and ranges as text

A text is laid out from tokens: they stand between blanks, in lines, and a line whose first
character that is no blank is a `#` has none (`Layout`). The tokens of a text are those it is laid
out from, and there is one such list (`layout_iff`). An initial image is read from a text exactly if
its tokens are hexadecimal in pairs of an address and a word, however they are laid out and written
(`image_texts_exact`), and a range of addresses from two tokens in the same way. -/

namespace FiveStage

namespace Text

variable {b t rest : List Char}

section Runs

/-- Blanks in front of a token belong to none. -/
theorem tokens_blanks (hb : ∀ c ∈ b, isBlank c = true) (rest : List Char) :
    tokens (b ++ rest) = tokens rest := by
  induction b with
  | nil => rfl
  | cons c b ih =>
    obtain ⟨hc, hb⟩ := List.forall_mem_cons.mp hb
    rw [← ih hb, List.cons_append, tokens, tokensAfter, if_pos hc]
    rfl

/-- A character that is no blank goes on with the token that is being read. -/
theorem tokensAfter_word (ht : ∀ c ∈ t, isBlank c = false) (token rest : List Char) :
    tokensAfter token (t ++ rest) = tokensAfter (token ++ t) rest := by
  induction t generalizing token with
  | nil => rw [List.nil_append, List.append_nil]
  | cons c t ih =>
    obtain ⟨hc, ht⟩ := List.forall_mem_cons.mp ht
    rw [List.cons_append, tokensAfter, if_neg (by simp [hc]), ih ht, List.append_assoc,
      List.singleton_append]

/-- A token ends with the line or at a blank. -/
theorem tokens_word (hne : t ≠ []) (ht : ∀ c ∈ t, isBlank c = false)
    (hrest : ∀ c ∈ rest.head?, isBlank c = true) : tokens (t ++ rest) = t :: tokens rest := by
  have hempty : t.isEmpty = false := by simpa using hne
  rw [tokens, tokensAfter_word ht, List.nil_append]
  cases rest with
  | nil => simp [tokensAfter, tokens, hempty]
  | cons c rest =>
    have hc : isBlank c = true := hrest c rfl
    rw [tokensAfter, if_pos hc, hempty, tokens, tokensAfter, if_pos hc]
    rfl

end Runs

end Text

namespace ImageText

open Text

variable {t text line rest : List Char} {ts T : List (List Char)}

/-- A blank within a line. -/
def Space (c : Char) : Prop := isBlank c = true ∧ c ≠ '\n'

/-- A token: one or more characters without a blank. -/
structure IsToken (t : List Char) : Prop where
  ne_nil : t ≠ []
  notBlank : ∀ c ∈ t, isBlank c = false

/-- A line with its tokens, in order: each has blanks in front of it, as many as there are but for
the first at least one, and blanks may follow the last. -/
inductive Spaced : List (List Char) → List Char → Prop
  | blank {b : List Char} (spaces : ∀ c ∈ b, Space c) : Spaced [] b
  | token {b t rest : List Char} {ts : List (List Char)} (spaces : ∀ c ∈ b, Space c)
      (word : IsToken t) (apart : ∀ c ∈ rest.head?, Space c) (behind : Spaced ts rest) :
      Spaced (t :: ts) (b ++ t ++ rest)

/-- A line of a text with the tokens it adds: a remark, which adds none, or tokens the first of
which does not begin like a remark. -/
inductive Line : List (List Char) → List Char → Prop
  | remark {b rest : List Char} (spaces : ∀ c ∈ b, Space c) (single : '\n' ∉ rest) :
      Line [] (b ++ '#' :: rest)
  | tokens {ts : List (List Char)} {line : List Char} (spaced : Spaced ts line)
      (plain : ∀ t ∈ ts.head?, t.head? ≠ some '#') : Line ts line

/-- A text with its tokens: one line, or a line in front of others. -/
inductive Layout : List (List Char) → List Char → Prop
  | last {ts : List (List Char)} {line : List Char} (only : Line ts line) : Layout ts line
  | more {ts T : List (List Char)} {line text : List Char} (first : Line ts line)
      (others : Layout T text) : Layout (ts ++ T) (line ++ '\n' :: text)

section Lines

theorem Spaced.notMem (h : Spaced ts line) : '\n' ∉ line := by
  induction h with
  | blank spaces => exact fun hmem => (spaces _ hmem).2 rfl
  | token spaces word _ _ ih =>
    simp only [List.mem_append, not_or]
    refine ⟨⟨fun hmem => (spaces _ hmem).2 rfl, fun hmem => ?_⟩, ih⟩
    exact absurd (word.notBlank _ hmem) (by decide)

theorem Spaced.tokens_eq (h : Spaced ts line) : Text.tokens line = ts := by
  induction h with
  | @blank b spaces =>
    have hblanks := tokens_blanks (fun c hc => (spaces c hc).1) []
    rwa [List.append_nil] at hblanks
  | token spaces word apart _ ih =>
    rw [List.append_assoc, tokens_blanks fun c hc => (spaces c hc).1,
      tokens_word word.ne_nil word.notBlank fun c hc => (apart c hc).1, ih]

/-- What the first character of a line that is no blank tells. -/
theorem isRemark_blanks {b : List Char} (hb : ∀ c ∈ b, Space c) (rest : List Char) :
    isRemark (b ++ rest) = isRemark rest := by
  rw [isRemark, isRemark, List.dropWhile_append_of_pos fun c hc => (hb c hc).1]

theorem Spaced.isRemark_eq (h : Spaced ts line) :
    isRemark line = true ↔ ∃ t ∈ ts.head?, t.head? = some '#' := by
  cases h with
  | blank spaces =>
    rw [← List.append_nil line, isRemark_blanks spaces]
    simp [isRemark]
  | @token b t rest ts spaces word =>
    rw [List.append_assoc, isRemark_blanks spaces]
    cases t with
    | nil => exact absurd rfl word.ne_nil
    | cons c t =>
      have hc := word.notBlank c List.mem_cons_self
      simp [isRemark, hc]

/-- The tokens that a line adds to those of its text. -/
theorem Line.tokens_eq (h : Line ts line) :
    '\n' ∉ line ∧ (if isRemark line then [] else Text.tokens line) = ts := by
  cases h with
  | @remark b rest spaces single =>
    refine ⟨?_, ?_⟩
    · simp only [List.mem_append, List.mem_cons, not_or]
      exact ⟨fun hmem => (spaces _ hmem).2 rfl, by decide, single⟩
    · rw [isRemark_blanks spaces]
      rfl
  | tokens spaced plain =>
    refine ⟨spaced.notMem, ?_⟩
    have hremark : ¬ isRemark line = true := by
      rw [spaced.isRemark_eq]
      rintro ⟨t, ht, hhash⟩
      exact plain t ht hhash
    rw [if_neg hremark, spaced.tokens_eq]

/-- A list begins with a run of what has a property, behind which there is nothing or something that
has it not. -/
theorem exists_run (p : Char → Bool) (l : List Char) :
    ∃ run rest, l = run ++ rest ∧ (∀ c ∈ run, p c = true) ∧ ∀ c ∈ rest.head?, p c = false := by
  induction l with
  | nil => exact ⟨[], [], rfl, nofun, nofun⟩
  | cons c l ih =>
    cases hc : p c with
    | false => exact ⟨[], c :: l, rfl, nofun, fun _ hx => Option.some.inj hx ▸ hc⟩
    | true =>
      obtain ⟨run, rest, rfl, hrun, hrest⟩ := ih
      exact ⟨c :: run, rest, rfl, List.forall_mem_cons.mpr ⟨hc, hrun⟩, hrest⟩

/-- Every line has its tokens between blanks. -/
theorem exists_spaced (line : List Char) (hline : '\n' ∉ line) : ∃ ts, Spaced ts line := by
  induction hlen : line.length using Nat.strongRecOn generalizing line with
  | ind n ih =>
    obtain ⟨b, rest, rfl, hb, hrest⟩ := exists_run isBlank line
    rw [List.mem_append, not_or] at hline
    have hspaces : ∀ c ∈ b, Space c := by
      intro c hc
      refine ⟨hb c hc, ?_⟩
      rintro rfl
      exact hline.1 hc
    obtain ⟨t, behind, rfl, ht, hbehind⟩ := exists_run (fun c => !isBlank c) rest
    cases t with
    | nil =>
      cases behind with
      | nil => exact ⟨[], by simpa using Spaced.blank hspaces⟩
      | cons c behind =>
        have hblank := hbehind c rfl
        rw [hrest c rfl] at hblank
        cases hblank
    | cons c t =>
      rw [List.mem_append, not_or] at hline
      obtain ⟨ts, hts⟩ := ih behind.length (by simp at hlen; omega) behind hline.2.2 rfl
      refine ⟨(c :: t) :: ts, ?_⟩
      rw [← List.append_assoc]
      refine .token hspaces ⟨List.cons_ne_nil c t, fun x hx => by simpa using ht x hx⟩ ?_ hts
      intro x hx
      refine ⟨by simpa using hbehind x hx, ?_⟩
      rintro rfl
      exact hline.2.2 (List.mem_of_mem_head? hx)

/-- Every line is a remark or has tokens that do not begin like one. -/
theorem exists_line (hline : '\n' ∉ line) : ∃ ts, Line ts line := by
  obtain ⟨ts, hts⟩ := exists_spaced line hline
  by_cases hplain : ∀ t ∈ ts.head?, t.head? ≠ some '#'
  · exact ⟨ts, .tokens hts hplain⟩
  · cases hts with
    | blank => exact absurd nofun hplain
    | @token b t rest ts spaces =>
      have hhash : t.head? = some '#' := by simpa using hplain
      obtain ⟨t, rfl⟩ := List.head?_eq_some_iff.mp hhash
      rw [List.append_assoc, List.mem_append, List.cons_append, List.mem_cons, not_or, not_or]
        at hline
      exact ⟨[], by rw [List.append_assoc]; exact .remark spaces hline.2.2⟩

end Lines

section Texts

theorem tokens_line (hline : '\n' ∉ line) :
    tokens line = if isRemark line then [] else Text.tokens line := by
  rw [tokens, lines, splitOn_of_notMem hline]
  by_cases h : isRemark line <;> simp [h]

theorem tokens_more (hline : '\n' ∉ line) (text : List Char) :
    tokens (line ++ '\n' :: text) =
      (if isRemark line then [] else Text.tokens line) ++ tokens text := by
  rw [tokens, lines, splitOn_cons hline, ← lines]
  by_cases h : isRemark line <;> simp [h, tokens]

theorem Layout.tokens_eq (h : Layout T text) : tokens text = T := by
  induction h with
  | last only =>
    obtain ⟨hline, hts⟩ := only.tokens_eq
    rw [tokens_line hline, hts]
  | more first _ ih =>
    obtain ⟨hline, hts⟩ := first.tokens_eq
    rw [tokens_more hline, hts, ih]

/-- Every text is laid out from tokens. -/
theorem exists_layout (text : List Char) : ∃ T, Layout T text := by
  induction hlen : text.length using Nat.strongRecOn generalizing text with
  | ind n ih =>
    by_cases hline : '\n' ∈ text
    · obtain ⟨line, rest, rfl, hfree⟩ := List.eq_append_cons_of_mem hline
      obtain ⟨ts, hts⟩ := exists_line hfree
      obtain ⟨T, hT⟩ := ih rest.length (by simp at hlen; omega) rest rfl
      exact ⟨ts ++ T, .more hts hT⟩
    · obtain ⟨ts, hts⟩ := exists_line hline
      exact ⟨ts, .last hts⟩

/-- A text is laid out from its tokens and from no others. -/
theorem layout_iff : Layout T text ↔ T = tokens text := by
  constructor
  · exact fun h => h.tokens_eq.symm
  · rintro rfl
    obtain ⟨T, hT⟩ := exists_layout text
    exact hT.tokens_eq.symm ▸ hT

end Texts

/-- The ways to begin a hexadecimal token. -/
def marks : List (List Char) := [[], ['0', 'x'], ['0', 'X']]

/-- A hexadecimal token and its value: a mark or none, a plus sign or none, and one or more digits
that stand for a number of 64 bits. -/
def HexToken (token : List Char) (n : Nat) : Prop :=
  ∃ mark ∈ marks, ∃ sign ds, (sign = [] ∨ sign = ['+']) ∧ token = mark ++ sign ++ ds ∧
    HexNumeral ds n ∧ n < 2 ^ 64

/-- A way to write a number: a mark or none, zeros, and its hexadecimal digits, each in either
case. -/
def Written (token : List Char) (n : Nat) : Prop :=
  ∃ mark ∈ marks, ∃ zeros ds, token = mark ++ List.replicate zeros '0' ++ ds ∧
    List.Forall₂ (fun c c' => c' = c ∨ c' = c.toUpper) (Nat.toDigits 16 n) ds

/-- Tokens two by two for the address and the word of each pair, given how a token stands for a
number. -/
inductive Paired (reads : List Char → Nat → Prop) :
    List (List Char) → List (Word × InstWord) → Prop
  | nil : Paired reads [] []
  | cons {addr value : List Char} {a : Word} {w : InstWord} {ts : List (List Char)}
      {ps : List (Word × InstWord)} (first : reads addr a.toNat) (second : reads value w.toNat)
      (rest : Paired reads ts ps) : Paired reads (addr :: value :: ts) ((a, w) :: ps)

section Numbers

variable {token : List Char} {n : Nat} {subject : ParseSubject}

theorem exists_mark (token : List Char) : ∃ mark ∈ marks, token = mark ++ digits token := by
  unfold digits
  split
  · exact ⟨['0', 'x'], by decide, rfl⟩
  · exact ⟨['0', 'X'], by decide, rfl⟩
  · exact ⟨[], by decide, rfl⟩

/-- A numeral does not begin with a mark. -/
theorem digits_numeral {sign ds : List Char} (hsign : sign = [] ∨ sign = ['+'])
    (hds : HexNumeral ds n) : digits (sign ++ ds) = sign ++ ds := by
  obtain ⟨-, vs, hvs, -⟩ := hds
  have noMark (x : Char) (rest : List Char) (heq : sign ++ ds = '0' :: x :: rest) :
      ∃ d, HexDigit x d := by
    rcases hsign with rfl | rfl
    · rw [List.nil_append] at heq
      rw [heq] at hvs
      obtain ⟨_, _, -, hrest, -⟩ := List.forall₂_cons_left_iff.mp hvs
      obtain ⟨d, _, hx, -⟩ := List.forall₂_cons_left_iff.mp hrest
      exact ⟨d, hx⟩
    · cases heq
  unfold digits
  split
  next rest heq =>
    obtain ⟨_, hx⟩ := noMark 'x' rest heq
    exact absurd hx not_hexDigit_x.1
  next rest heq =>
    obtain ⟨_, hx⟩ := noMark 'X' rest heq
    exact absurd hx not_hexDigit_x.2
  · rfl

/-- What is read as a number is a hexadecimal token. -/
theorem number_eq_ok_iff : number subject token = .ok n ↔ HexToken token n := by
  have hnumber : number subject token = .ok n ↔ readUnsigned 16 (digits token) = .ok n := by
    unfold number
    cases readUnsigned 16 (digits token) <;> simp
  rw [hnumber, readUnsigned_eq_ok_iff]
  constructor
  · rintro ⟨sign, ds, hsign, hdigits, hds, hlt⟩
    obtain ⟨mark, hmark, htoken⟩ := exists_mark token
    exact ⟨mark, hmark, sign, ds, hsign, by rw [List.append_assoc, ← hdigits, ← htoken], hds, hlt⟩
  · rintro ⟨mark, hmark, sign, ds, hsign, rfl, hds, hlt⟩
    refine ⟨sign, ds, hsign, ?_, hds, hlt⟩
    rw [List.append_assoc]
    simp only [marks, List.mem_cons, List.not_mem_nil, or_false] at hmark
    rcases hmark with rfl | rfl | rfl
    · rw [List.nil_append]
      exact digits_numeral hsign hds
    · rfl
    · rfl

theorem HexToken.lt (h : HexToken token n) : n < 2 ^ 64 := by
  obtain ⟨_, -, _, _, -, -, -, hlt⟩ := h
  exact hlt

theorem HexToken.toNat_ofNat (h : HexToken token n) : (BitVec.ofNat 64 n).toNat = n := by
  rw [BitVec.toNat_ofNat, Nat.mod_eq_of_lt h.lt]

/-- However a number is written, its token stands for it. -/
theorem Written.hexToken (h : Written token n) (hn : n < 2 ^ 64) : HexToken token n := by
  obtain ⟨mark, hmark, zeros, ds, rfl, hds⟩ := h
  refine ⟨mark, hmark, [], _, .inl rfl, ?_, hexNumeral_toDigits zeros hds, hn⟩
  rw [List.append_nil, List.append_assoc]

end Numbers

section Pairs

variable {addr value : List Char} {ps : List (Word × InstWord)}

theorem pair_eq_ok_iff {a : Word} {w : InstWord} :
    pair addr value = .ok (a, w) ↔ HexToken addr a.toNat ∧ HexToken value w.toNat := by
  constructor
  · intro h
    unfold pair at h
    split at h
    · cases h
    next n hn =>
      split at h
      · cases h
      next v hv =>
        split at h
        next hword =>
          cases h
          have haddr := number_eq_ok_iff.mp hn
          have hvalue := number_eq_ok_iff.mp hv
          rw [haddr.toNat_ofNat, BitVec.toNat_ofNat, Nat.mod_eq_of_lt hword]
          exact ⟨haddr, hvalue⟩
        · cases h
  · rintro ⟨haddr, hvalue⟩
    have hword : w.toNat < 0x100000000 := w.isLt
    simp only [pair, number_eq_ok_iff.mpr haddr, number_eq_ok_iff.mpr hvalue, hword, if_true,
      BitVec.ofNat_toNat, BitVec.setWidth_eq]

theorem pairs_eq_ok_iff (heven : T.length % 2 = 0) :
    pairs T = .ok ps ↔ Paired HexToken T ps := by
  induction T using List.twoStepInduction generalizing ps with
  | nil =>
    simp only [pairs, Except.ok.injEq]
    constructor
    · rintro rfl
      exact .nil
    · rintro (_ | _)
      rfl
  | singleton => cases heven
  | cons_cons addr value rest ih =>
    have hrest : rest.length % 2 = 0 := (Nat.add_mod_right rest.length 2).symm.trans heven
    constructor
    · intro h
      unfold pairs at h
      split at h
      · cases h
      next p hp =>
        split at h
        · cases h
        next qs hqs =>
          cases h
          obtain ⟨haddr, hvalue⟩ := pair_eq_ok_iff.mp hp
          exact .cons haddr hvalue ((ih hrest).mp hqs)
    · rintro (_ | ⟨haddr, hvalue, hpairs⟩)
      simp only [pairs, pair_eq_ok_iff.mpr ⟨haddr, hvalue⟩, (ih hrest).mpr hpairs]

/-- Tokens can be read in pairs if each is hexadecimal, and the second of each pair fits into a
word. -/
theorem exists_paired_iff :
    (∃ ps, Paired HexToken T ps) ↔
      T.length % 2 = 0 ∧ (∀ t ∈ T, ∃ n, HexToken t n) ∧
        ∀ i t, T[2 * i + 1]? = some t → ∃ n < 2 ^ 32, HexToken t n := by
  induction T using List.twoStepInduction with
  | nil => exact ⟨fun _ => ⟨rfl, nofun, nofun⟩, fun _ => ⟨[], .nil⟩⟩
  | singleton => exact ⟨nofun, fun h => absurd h.1 Nat.one_ne_zero⟩
  | cons_cons addr value rest ih =>
    have hlength : (addr :: value :: rest).length % 2 = rest.length % 2 :=
      Nat.add_mod_right rest.length 2
    rw [hlength]
    constructor
    · rintro ⟨_, _ | @⟨_, _, a, w, _, ps, haddr, hvalue, hpairs⟩⟩
      obtain ⟨heven, hall, hsecond⟩ := ih.mp ⟨ps, hpairs⟩
      refine ⟨heven, ?_, ?_⟩
      · exact List.forall_mem_cons.mpr ⟨⟨_, haddr⟩, List.forall_mem_cons.mpr ⟨⟨_, hvalue⟩, hall⟩⟩
      · intro i t ht
        cases i with
        | zero =>
          cases ht
          exact ⟨_, w.isLt, hvalue⟩
        | succ i => exact hsecond i t ht
    · rintro ⟨heven, hall, hsecond⟩
      obtain ⟨⟨a, haddr⟩, hall⟩ := List.forall_mem_cons.mp hall
      obtain ⟨v, hv, hvalue⟩ := hsecond 0 value rfl
      obtain ⟨ps, hps⟩ := ih.mpr ⟨heven, (List.forall_mem_cons.mp hall).2,
        fun i t ht => hsecond (i + 1) t ht⟩
      refine ⟨(BitVec.ofNat 64 a, BitVec.ofNat 32 v) :: ps, .cons ?_ ?_ hps⟩
      · rwa [haddr.toNat_ofNat]
      · rwa [BitVec.toNat_ofNat, Nat.mod_eq_of_lt hv]

/-- Tokens that are written for pairs are read as those pairs. -/
theorem Paired.hexToken (h : Paired Written T ps) : Paired HexToken T ps := by
  induction h with
  | nil => exact .nil
  | cons first second _ ih =>
    refine .cons (first.hexToken (BitVec.isLt _)) (second.hexToken ?_) ih
    exact Nat.lt_trans (BitVec.isLt _) (by decide)

theorem Paired.even {reads : List Char → Nat → Prop} (h : Paired reads T ps) :
    T.length % 2 = 0 := by
  induction h with
  | nil => rfl
  | cons _ _ _ ih => exact (Nat.add_mod_right _ 2).trans ih

theorem readImage_eq_ok_iff : readImage text = .ok ps ↔ Paired HexToken (tokens text) ps := by
  unfold readImage
  by_cases heven : (tokens text).length % 2 = 0
  · simp only [heven, if_true]
    exact pairs_eq_ok_iff heven
  · simp only [heven, if_false]
    exact ⟨nofun, fun h => absurd h.even heven⟩

theorem readRange_eq_ok_iff {a b : Word} :
    readRange text = .ok (a, b) ↔
      ∃ start stop, tokens text = [start, stop] ∧ HexToken start a.toNat ∧
        HexToken stop b.toNat ∧ a < b := by
  constructor
  · intro h
    unfold readRange at h
    split at h
    next start stop htokens =>
      split at h
      · cases h
      next n hn =>
        split at h
        · cases h
        next k hk =>
          split at h
          next hlt =>
            cases h
            have hstart := number_eq_ok_iff.mp hn
            have hstop := number_eq_ok_iff.mp hk
            refine ⟨start, stop, htokens, ?_, ?_, ?_⟩
            · rwa [hstart.toNat_ofNat]
            · rwa [hstop.toNat_ofNat]
            · rwa [BitVec.lt_def, hstart.toNat_ofNat, hstop.toNat_ofNat]
          · cases h
    · cases h
  · rintro ⟨start, stop, htokens, hstart, hstop, hlt⟩
    have hlt : a.toNat < b.toNat := hlt
    simp only [readRange, htokens, number_eq_ok_iff.mpr hstart, number_eq_ok_iff.mpr hstop, hlt,
      if_true, BitVec.ofNat_toNat, BitVec.setWidth_eq]

end Pairs

end ImageText

open ImageText in
/-- Initial images and ranges are read from texts exactly. Every text is laid out from one list of
tokens. An initial image is read from it if and only if their number is even, all are hexadecimal
and every second one is a number of 32 bits, and what is read are their pairs in order; a range is
read if and only if there are two, both hexadecimal, the first below the second. Hence pairs are
read back from every text that they are written in, with or without a mark, with any zeros in front
of the digits, between any blanks, and in any lines with remarks and blank lines between them. -/
theorem image_texts_exact :
    (∀ text, ∃ T, (∀ T', Layout T' text ↔ T' = T) ∧
      ((∃ ps, readImage text = .ok ps) ↔
        T.length % 2 = 0 ∧ (∀ t ∈ T, ∃ n, HexToken t n) ∧
          ∀ i t, T[2 * i + 1]? = some t → ∃ n < 2 ^ 32, HexToken t n) ∧
      (∀ ps, readImage text = .ok ps ↔ Paired HexToken T ps) ∧
      ((∃ r, readRange text = .ok r) ↔
        ∃ start stop a b, T = [start, stop] ∧ HexToken start a ∧ HexToken stop b ∧ a < b) ∧
      ∀ a b, readRange text = .ok (a, b) ↔
        ∃ start stop, T = [start, stop] ∧ HexToken start a.toNat ∧ HexToken stop b.toNat ∧
          a < b) ∧
    ∀ ps T text, Paired Written T ps → Layout T text → readImage text = .ok ps := by
  refine ⟨fun text => ⟨tokens text, fun T' => layout_iff, ?_, fun ps => readImage_eq_ok_iff, ?_,
    fun a b => readRange_eq_ok_iff⟩, ?_⟩
  · rw [← exists_paired_iff]
    exact exists_congr fun ps => readImage_eq_ok_iff
  · constructor
    · rintro ⟨⟨a, b⟩, h⟩
      obtain ⟨start, stop, htokens, hstart, hstop, hlt⟩ := readRange_eq_ok_iff.mp h
      exact ⟨start, stop, _, _, htokens, hstart, hstop, hlt⟩
    · rintro ⟨start, stop, a, b, htokens, hstart, hstop, hlt⟩
      refine ⟨(BitVec.ofNat 64 a, BitVec.ofNat 64 b),
        readRange_eq_ok_iff.mpr ⟨start, stop, htokens, ?_, ?_, ?_⟩⟩
      · rwa [hstart.toNat_ofNat]
      · rwa [hstop.toNat_ofNat]
      · rwa [BitVec.lt_def, hstart.toNat_ofNat, hstop.toNat_ofNat]
  · intro ps T text hwritten hlayout
    rw [readImage_eq_ok_iff, hlayout.tokens_eq]
    exact hwritten.hexToken

open ImageText in
/-- Two pairs that break over lines, with a remark and a blank line between them. -/
theorem image_texts_exact_broken :
    Paired Written ["0x0100".toList, "DEADbeef".toList, "0X104".toList, "00000001".toList]
        [(0x100, 0xDEADBEEF), (0x104, 1)] ∧
      Layout ["0x0100".toList, "DEADbeef".toList, "0X104".toList, "00000001".toList]
        "  0x0100\n # 0x4\n\nDEADbeef\t0X104\r\n00000001".toList ∧
      readImage "  0x0100\n # 0x4\n\nDEADbeef\t0X104\r\n00000001".toList =
        .ok [(0x100, 0xDEADBEEF), (0x104, 1)] := by
  have hwritten : Paired Written
      ["0x0100".toList, "DEADbeef".toList, "0X104".toList, "00000001".toList]
      [(0x100, 0xDEADBEEF), (0x104, 1)] := by
    refine .cons ?_ ?_ (.cons ?_ ?_ .nil)
    · exact ⟨['0', 'x'], by decide, 1, "100".toList, by decide +kernel, by decide +kernel⟩
    · exact ⟨[], by decide, 0, "DEADbeef".toList, by decide +kernel, by decide +kernel⟩
    · exact ⟨['0', 'X'], by decide, 0, "104".toList, by decide +kernel, by decide +kernel⟩
    · exact ⟨[], by decide, 7, "1".toList, by decide +kernel, by decide +kernel⟩
  have hlayout : Layout ["0x0100".toList, "DEADbeef".toList, "0X104".toList, "00000001".toList]
      "  0x0100\n # 0x4\n\nDEADbeef\t0X104\r\n00000001".toList :=
    layout_iff.mpr (by decide +kernel)
  exact ⟨hwritten, hlayout, image_texts_exact.2 _ _ _ hwritten hlayout⟩

end FiveStage
