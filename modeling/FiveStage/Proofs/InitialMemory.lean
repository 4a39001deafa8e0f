import FiveStage.Proofs.Bytes
import FiveStage.Proofs.Session

/-! # The initial memory

The memory a run starts from holds the program at its base address, zeros behind it, and over both
the words of the initial image, of which the last one that covers an address decides
(`initial_memory_exact`). An image that cannot be read stores nothing, and a word that does not fit
stops the words behind it and no others. -/

namespace FiveStage

namespace ImageText

/-- The four bytes of a word of an image cover an address. -/
def Covers (p : Word × InstWord) (a : Nat) : Prop := p.1.toNat ≤ a ∧ a < p.1.toNat + 4

instance (p : Word × InstWord) (a : Nat) : Decidable (Covers p a) :=
  inferInstanceAs (Decidable (_ ∧ _))

/-- The byte that a word of an image has for an address it covers, the lowest byte first. -/
def byteOf (p : Word × InstWord) (a : Nat) : UInt8 :=
  UInt8.ofNat (p.2.toNat / 256 ^ (a - p.1.toNat))

/-- The byte at an address when words are laid over it: that of the last word that covers the
address, or the byte that was there if none does. -/
def overlaid (ps : List (Word × InstWord)) (a : Nat) (b : UInt8) : UInt8 :=
  match (ps.filter fun p => Covers p a).getLast? with
  | some p => byteOf p a
  | none => b

theorem overlaid_cons (p : Word × InstWord) (ps : List (Word × InstWord)) (a : Nat) (b : UInt8) :
    overlaid (p :: ps) a b = overlaid ps a (if Covers p a then byteOf p a else b) := by
  unfold overlaid
  by_cases h : Covers p a
  · rw [List.filter_cons_of_pos (by simpa using h), List.getLast?_cons, if_pos h]
    cases (ps.filter fun p => Covers p a).getLast? <;> rfl
  · rw [List.filter_cons_of_neg (by simpa using h), if_neg h]

end ImageText

/-- A test that a list as a whole does not pass has a first member that fails it. -/
theorem forall_or_first_not {α : Type} (P : α → Prop) [DecidablePred P] (xs : List α) :
    (∀ x ∈ xs, P x) ∨
      ∃ before x after, xs = before ++ x :: after ∧ (∀ y ∈ before, P y) ∧ ¬ P x := by
  cases h : xs.find? fun x => !decide (P x) with
  | none => exact .inl (by simpa using h)
  | some x =>
    obtain ⟨hx, before, after, heq, hbefore⟩ := List.find?_eq_some_iff_append.mp h
    exact .inr ⟨before, x, after, heq, by simpa using hbefore, by simpa using hx⟩

namespace Memory

theorem cell_base_add (m : Memory) (i : Nat) : m.cell (m.base.toNat + i) = m.byteAt i := by
  rw [cell, if_pos (Nat.le_add_right _ i), Nat.add_sub_cancel_left]

theorem contains_congr {m d : Memory} (hbase : d.base = m.base) (hsize : d.size = m.size)
    (addr : Word) (n : Nat) : d.Contains addr n ↔ m.Contains addr n := by
  rw [Contains, Contains, hbase, hsize]

section Words

/-- The memory after words have been stored in it one after the other, each of which fits. -/
def written (m : Memory) (ps : List (Word × InstWord)) : Memory :=
  ps.foldl (fun m p => m.write p.1 (toLittleEndian 4 p.2.toNat)) m

variable (m : Memory) (ps : List (Word × InstWord))

theorem written_cons (p : Word × InstWord) :
    m.written (p :: ps) = (m.write p.1 (toLittleEndian 4 p.2.toNat)).written ps := rfl

theorem base_written : (m.written ps).base = m.base := by
  induction ps generalizing m with
  | nil => rfl
  | cons p ps ih => rw [written_cons, ih, base_write]

theorem size_written : (m.written ps).size = m.size := by
  induction ps generalizing m with
  | nil => rfl
  | cons p ps ih => rw [written_cons, ih, size_write]

variable {m ps}

/-- Words that fit are stored before the words behind them are looked at. -/
theorem storeWords_append (h : ∀ p ∈ ps, m.Contains p.1 4) (rest : List (Word × InstWord)) :
    m.storeWords (ps ++ rest) = (m.written ps).storeWords rest := by
  induction ps generalizing m with
  | nil => rfl
  | cons p ps ih =>
    obtain ⟨hp, hps⟩ := List.forall_mem_cons.mp h
    rw [List.cons_append, storeWords, if_pos hp, written_cons]
    exact ih fun q hq => (contains_congr (base_write ..) (size_write ..) _ _).mpr (hps q hq)

/-- Words that fit are all stored. -/
theorem storeWords_of_fits (h : ∀ p ∈ ps, m.Contains p.1 4) :
    m.storeWords ps = (none, m.written ps) := by
  rw [← List.append_nil ps, storeWords_append h, List.append_nil]
  rfl

/-- The first word that does not fit stops those behind it. -/
theorem storeWords_of_first {p : Word × InstWord} (h : ∀ q ∈ ps, m.Contains q.1 4)
    (hp : ¬ m.Contains p.1 4) (after : List (Word × InstWord)) :
    m.storeWords (ps ++ p :: after) = (some (.outOfBounds p.1 4), m.written ps) := by
  have hp' : ¬ (m.written ps).Contains p.1 4 := by
    rwa [contains_congr (base_written m ps) (size_written m ps)]
  rw [storeWords_append h, storeWords, if_neg hp']

/-- The bytes of the words lie over those of the memory. -/
theorem cell_written (h : ∀ p ∈ ps, m.Contains p.1 4) (a : Nat) :
    (m.written ps).cell a = ImageText.overlaid ps a (m.cell a) := by
  induction ps generalizing m with
  | nil => rfl
  | cons p ps ih =>
    obtain ⟨hp, hps⟩ := List.forall_mem_cons.mp h
    have hrest : ∀ q ∈ ps, (m.write p.1 (toLittleEndian 4 p.2.toNat)).Contains q.1 4 :=
      fun q hq => (contains_congr (base_write ..) (size_write ..) _ _).mpr (hps q hq)
    rw [written_cons, ih hrest, cell_store m hp, ImageText.overlaid_cons]
    rfl

end Words

/-- A memory that starts at a given address and consists of given bytes, as many as there are. -/
structure Holds (m : Memory) (start : Word) (n : Nat) (bytes : Nat → UInt8) : Prop where
  base : m.base = start
  size : m.size = n
  byteAt : ∀ i < n, m.byteAt i = bytes i

theorem Holds.map_byteAt {m : Memory} {start : Word} {n : Nat} {bytes : Nat → UInt8}
    (h : m.Holds start n bytes) : (List.range n).map m.byteAt = (List.range n).map bytes :=
  List.map_congr_left fun i hi => h.byteAt i (List.mem_range.mp hi)

theorem written_holds {m : Memory} {ps : List (Word × InstWord)} (h : ∀ p ∈ ps, m.Contains p.1 4) :
    (m.written ps).Holds m.base m.size
      fun i => ImageText.overlaid ps (m.base.toNat + i) (m.byteAt i) where
  base := base_written m ps
  size := size_written m ps
  byteAt i _ := by
    rw [← cell_base_add, base_written, cell_written h, cell_base_add]

section Image

variable {m : Memory} {text : List Char} {ps : List (Word × InstWord)}

theorem applyImage_of_error {e : ConfigError} (h : ImageText.readImage text = .error e) :
    m.applyImage text = (.error (.config e), m) := by
  rw [applyImage, h]

theorem applyImage_of_fits (h : ImageText.readImage text = .ok ps)
    (hfits : ∀ p ∈ ps, m.Contains p.1 4) :
    m.applyImage text = (.ok ps.length, m.written ps) := by
  rw [applyImage, h]
  simp only [storeWords_of_fits hfits]

theorem applyImage_of_first {before after : List (Word × InstWord)} {p : Word × InstWord}
    (h : ImageText.readImage text = .ok (before ++ p :: after))
    (hbefore : ∀ q ∈ before, m.Contains q.1 4) (hp : ¬ m.Contains p.1 4) :
    m.applyImage text = (.error (.memory (.outOfBounds p.1 4)), m.written before) := by
  rw [applyImage, h]
  simp only [storeWords_of_first hbefore hp after]

/-- An image is applied exactly if it can be read and all its words fit. -/
theorem applyImage_eq_ok_iff {n : Nat} {d : Memory} :
    m.applyImage text = (.ok n, d) ↔ ∃ ps, ImageText.readImage text = .ok ps ∧
      (∀ p ∈ ps, m.Contains p.1 4) ∧ n = ps.length ∧ d = m.written ps := by
  cases h : ImageText.readImage text with
  | error e => simp [applyImage_of_error h]
  | ok ps =>
    simp only [Except.ok.injEq, exists_eq_left']
    rcases forall_or_first_not (fun p => m.Contains p.1 4) ps with
      hfits | ⟨before, p, after, rfl, hbefore, hp⟩
    · simp only [applyImage_of_fits h hfits, Prod.mk.injEq, Except.ok.injEq, eq_comm]
      exact ⟨fun heq => ⟨hfits, heq⟩, And.right⟩
    · rw [applyImage_of_first h hbefore hp]
      have hmem : p ∈ before ++ p :: after := List.mem_append_right _ (List.mem_cons_self ..)
      exact ⟨fun heq => by simp at heq, fun ⟨hall, _⟩ => absurd (hall p hmem) hp⟩

end Image

section Program

theorem loop_toList (bytes : ByteArray) (i : Nat) (r : List UInt8) :
    ByteArray.toList.loop bytes i r = r.reverse ++ bytes.data.toList.drop i := by
  fun_induction ByteArray.toList.loop bytes i r with
  | case1 i r hi ih =>
    have hd : i < bytes.data.toList.length := hi
    have hget : bytes.get! i = bytes.data.toList[i] := by
      rw [ByteArray.get!, Array.getElem_toList]
      exact getElem!_pos bytes.data i hi
    rw [ih, List.reverse_cons, List.append_assoc, List.drop_eq_getElem_cons hd, hget]
    rfl
  | case2 i r hi =>
    have hd : bytes.data.toList.length ≤ i := Nat.le_of_not_lt hi
    rw [List.drop_eq_nil_of_le hd, List.append_nil]

theorem toList_eq (bytes : ByteArray) : bytes.toList = bytes.data.toList := by
  rw [ByteArray.toList, loop_toList]
  rfl

theorem length_toList (bytes : ByteArray) : bytes.toList.length = bytes.size := by
  rw [toList_eq]
  rfl

theorem byteAt_addZeros (base : Word) (n : Nat) (bytes : ByteArray) (i : Nat) :
    byteAt ⟨base, addZeros n bytes⟩ i = byteAt ⟨base, bytes⟩ i := by
  induction n generalizing bytes with
  | zero => rfl
  | succ n ih =>
    rw [addZeros, ih, byteAt_eq, byteAt_eq, ByteArray.data_push, Array.getElem?_push]
    split
    next h => rw [h, Array.getElem?_eq_none (Nat.le_refl _)]; rfl
    next => rfl

theorem byteAt_zeros (base : Word) (n i : Nat) : (zeros base n).byteAt i = 0 := by
  rw [zeros, byteAt_addZeros, byteAt_eq]
  rfl

/-- The bytes of a program at the base address, and zeros behind them. -/
def ofImage (c : Config) (program : ByteArray) : Memory :=
  (zeros c.memoryBase c.memorySize).write c.memoryBase program.toList

variable {c : Config} {program : ByteArray}

theorem ofImage_holds (h : program.size ≤ c.memorySize) :
    (ofImage c program).Holds c.memoryBase c.memorySize fun i => (program.data[i]?).getD 0 where
  base := rfl
  size := by rw [ofImage, size_write, size_zeros]
  byteAt i _ := by
    have hfits : (zeros c.memoryBase c.memorySize).Contains c.memoryBase program.toList.length := by
      refine ⟨Nat.le_refl _, ?_⟩
      rw [size_zeros, length_toList]
      exact Nat.add_le_add_left h _
    have hbase : (ofImage c program).base = c.memoryBase := rfl
    have hzeros := cell_base_add (zeros c.memoryBase c.memorySize) i
    rw [byteAt_zeros] at hzeros
    rw [← cell_base_add, hbase, ofImage, cell_write _ hfits]
    split
    · rw [Nat.add_sub_cancel_left, toList_eq, Array.getElem?_toList]
    next hout =>
      have hi : program.data.size ≤ i := by
        rw [length_toList] at hout
        have : ¬ i < program.size := by omega
        exact Nat.le_of_not_lt this
      rw [Array.getElem?_eq_none hi]
      exact hzeros

/-- A program is placed if it is not longer than the memory. -/
theorem place_program_iff {m : Memory} :
    (zeros c.memoryBase c.memorySize).place c.memoryBase program.toList = .ok m ↔
      program.size ≤ c.memorySize ∧ m = ofImage c program := by
  by_cases h : program.size ≤ c.memorySize
  · rw [place_zeros c.memoryBase (by rwa [length_toList])]
    simp only [Except.ok.injEq, h, true_and, eq_comm]
    rfl
  · have hnot :
        ¬ (zeros c.memoryBase c.memorySize).Contains c.memoryBase program.toList.length := by
      rintro ⟨-, hlen⟩
      rw [size_zeros, length_toList] at hlen
      exact h (Nat.le_of_add_le_add_left hlen)
    rw [place, if_neg hnot]
    exact ⟨nofun, fun hm => absurd hm.1 h⟩

end Program

end Memory

namespace Config

/-- All `n` bytes from an address on lie in the memory that the settings ask for. -/
def Encloses (c : Config) (addr : Word) (n : Nat) : Prop :=
  c.memoryBase.toNat ≤ addr.toNat ∧ addr.toNat + n ≤ c.memoryBase.toNat + c.memorySize

instance (c : Config) (addr : Word) (n : Nat) : Decidable (c.Encloses addr n) :=
  inferInstanceAs (Decidable (_ ∧ _))

/-- The text of the initial image: that of the file the settings name, and none if they name
none. -/
def NamesImage (c : Config) (f : Files) (text : List Char) : Prop :=
  Named c.initImage (fun path new => ∃ s, f.readText path = .ok s ∧ new = s.toList) [] text

variable {c : Config} {f : Files} {text : List Char} {program : ByteArray} {m : Memory}

theorem encloses_iff {bytes : Nat → UInt8} (h : m.Holds c.memoryBase c.memorySize bytes)
    (addr : Word) (n : Nat) : m.Contains addr n ↔ c.Encloses addr n := by
  rw [Memory.Contains, h.base, h.size, Encloses]

/-- The initial memory is that of the program with all words of the image stored in it. -/
theorem initial_eq_ok_iff (hc : c.validate = .ok ()) (htext : c.NamesImage f text) :
    Memory.initial c program f = .ok m ↔ program.size ≤ c.memorySize ∧
      ∃ ps, ImageText.readImage text = .ok ps ∧ (∀ p ∈ ps, c.Encloses p.1 4) ∧
        m = (Memory.ofImage c program).written ps := by
  have happly : Memory.initial c program f = .ok m ↔ program.size ≤ c.memorySize ∧
      ∃ n, (Memory.ofImage c program).applyImage text = (.ok n, m) := by
    rw [Arguments.initial_eq_ok_iff hc]
    simp only [Memory.place_program_iff, and_assoc, exists_and_left, exists_eq_left]
    refine and_congr_right fun _ => ?_
    unfold NamesImage at htext
    cases h : c.initImage with
    | none =>
      rw [h] at htext
      cases htext
      have hnone : ImageText.readImage [] = .ok [] := rfl
      rw [Memory.applyImage, hnone]
      exact ⟨fun h => ⟨0, Prod.ext rfl h.symm⟩, fun ⟨_, h⟩ => (congrArg Prod.snd h).symm⟩
    | some path =>
      rw [h] at htext
      obtain ⟨s, hs, rfl⟩ := htext
      simp only [Named, hs, Except.ok.injEq, exists_eq_left']
  rw [happly]
  refine and_congr_right fun hsize => ?_
  simp only [Memory.applyImage_eq_ok_iff, encloses_iff (Memory.ofImage_holds hsize)]
  constructor
  · rintro ⟨n, ps, hps, hfits, -, hm⟩
    exact ⟨ps, hps, hfits, hm⟩
  · rintro ⟨ps, hps, hfits, hm⟩
    exact ⟨ps.length, ps, hps, hfits, rfl, hm⟩

/-- There is no initial memory exactly if the program is too long, the image cannot be read, or one
of its words is not wholly inside. -/
theorem initial_fails_iff (hc : c.validate = .ok ()) (htext : c.NamesImage f text) :
    (∃ e, Memory.initial c program f = .error e) ↔
      c.memorySize < program.size ∨ (∃ e, ImageText.readImage text = .error e) ∨
        ∃ ps, ImageText.readImage text = .ok ps ∧ ∃ p ∈ ps, ¬ c.Encloses p.1 4 := by
  cases hm : Memory.initial c program f with
  | ok m =>
    obtain ⟨hsize, ps, hps, hfits, -⟩ := (initial_eq_ok_iff hc htext).mp hm
    refine ⟨nofun, ?_⟩
    rintro (hlong | ⟨e, he⟩ | ⟨ps', hps', p, hp, hout⟩)
    · exact absurd hsize (Nat.not_le_of_lt hlong)
    · cases hps.symm.trans he
    · cases hps.symm.trans hps'
      exact absurd (hfits p hp) hout
  | error e =>
    refine ⟨fun _ => ?_, fun _ => ⟨e, rfl⟩⟩
    by_contra hnone
    simp only [not_or, not_exists, not_and, Nat.not_lt, not_not] at hnone
    obtain ⟨hsize, hread, hfits⟩ := hnone
    cases hps : ImageText.readImage text with
    | error e => exact hread e hps
    | ok ps =>
      have hok := (initial_eq_ok_iff hc htext).mpr ⟨hsize, ps, hps, hfits ps hps, rfl⟩
      cases hm.symm.trans hok

/-- A memory is made of settings whose image can be read, and has their base and size. -/
theorem initial_shape (hc : c.validate = .ok ()) (h : Memory.initial c program f = .ok m) :
    m.base = c.memoryBase ∧ m.size = c.memorySize := by
  have htext : ∃ text, c.NamesImage f text := by
    obtain ⟨_, -, himage⟩ := (Arguments.initial_eq_ok_iff hc).mp h
    unfold NamesImage
    cases hi : c.initImage with
    | none => exact ⟨[], rfl⟩
    | some path =>
      rw [hi] at himage
      obtain ⟨s, _, hs, -⟩ := himage
      exact ⟨s.toList, s, hs, rfl⟩
  obtain ⟨text, htext⟩ := htext
  obtain ⟨hsize, ps, -, -, rfl⟩ := (initial_eq_ok_iff hc htext).mp h
  have hprogram := Memory.ofImage_holds hsize
  exact ⟨(Memory.base_written _ ps).trans hprogram.base,
    (Memory.size_written _ ps).trans hprogram.size⟩

end Config

/-- The initial memory of accepted settings, a program and a readable image is what these say. It
has the base and the size of the settings, and each byte is that of the last word of the image whose
four bytes cover its address, or else that of the program, or else zero. There is none exactly if
the program is longer than the memory, the image cannot be read, or one of its words is not wholly
inside. Applied to any memory, an image that cannot be read changes nothing, and one with a word
outside the memory has stored the words before it and nothing else. -/
theorem initial_memory_exact {c : Config} (hc : c.validate = .ok ()) (program : ByteArray)
    {f : Files}
    {text : List Char} (htext : c.NamesImage f text) :
    (∀ m, Memory.initial c program f = .ok m → ∃ ps, ImageText.readImage text = .ok ps ∧
      m.Holds c.memoryBase c.memorySize fun i =>
        ImageText.overlaid ps (c.memoryBase.toNat + i) ((program.data[i]?).getD 0)) ∧
    ((∃ e, Memory.initial c program f = .error e) ↔
      c.memorySize < program.size ∨ (∃ e, ImageText.readImage text = .error e) ∨
        ∃ ps, ImageText.readImage text = .ok ps ∧ ∃ p ∈ ps, ¬ c.Encloses p.1 4) ∧
    ∀ (m : Memory) (t : List Char),
      (∀ e, ImageText.readImage t = .error e → m.applyImage t = (.error (.config e), m)) ∧
      ∀ before p after, ImageText.readImage t = .ok (before ++ p :: after) →
        (∀ q ∈ before, m.Contains q.1 4) → ¬ m.Contains p.1 4 →
        ∃ d, m.applyImage t = (.error (.memory (.outOfBounds p.1 4)), d) ∧
          d.Holds m.base m.size fun i =>
            ImageText.overlaid before (m.base.toNat + i) (m.byteAt i) := by
  refine ⟨fun m hm => ?_, Config.initial_fails_iff hc htext,
    fun m t => ⟨fun e => Memory.applyImage_of_error, ?_⟩⟩
  · obtain ⟨hsize, ps, hps, hfits, rfl⟩ := (Config.initial_eq_ok_iff hc htext).mp hm
    have hprogram := Memory.ofImage_holds hsize
    have hholds := Memory.written_holds fun p hp =>
      (Config.encloses_iff hprogram p.1 4).mpr (hfits p hp)
    rw [hprogram.base, hprogram.size] at hholds
    refine ⟨ps, hps, hholds.base, hholds.size, fun i hi => ?_⟩
    rw [hholds.byteAt i hi, hprogram.byteAt i hi]
  · intro before p after ht hbefore hp
    exact ⟨_, Memory.applyImage_of_first ht hbefore hp, Memory.written_holds hbefore⟩

/-- Settings with a memory of eight bytes and an image. -/
def Config.patched : Config := { memoryBase := 0x100, memorySize := 8, initImage := some "words" }

/-- An image of two words that overlap each other and a program, at addresses that are not
aligned. -/
def Files.patched : Files :=
  { nodes := [(["words"], .file "102 44332211\n104 88776655".toUTF8)] }

/-- The second word hides the end of the first, and the first the end of the program. A program of
nine bytes is too long, and a word behind the end of the memory stops the words behind it. -/
theorem initial_memory_exact_overlapping :
    (∃ m, Memory.initial .patched ⟨#[1, 2, 3]⟩ .patched = .ok m ∧ m.base = 0x100 ∧ m.size = 8 ∧
      (List.range 8).map m.byteAt = [1, 2, 0x11, 0x22, 0x55, 0x66, 0x77, 0x88]) ∧
    (∃ e, Memory.initial .patched ⟨#[1, 2, 3, 4, 5, 6, 7, 8, 9]⟩ .patched = .error e) ∧
    ∃ d, (Memory.zeros 0 8).applyImage "1 AABBCCDD\n5 11223344\n0 55667788".toList =
        (.error (.memory (.outOfBounds 5 4)), d) ∧
      (List.range 8).map d.byteAt = [0, 0xDD, 0xCC, 0xBB, 0xAA, 0, 0, 0] := by
  have hc : Config.patched.validate = .ok () := by decide
  have htext : Config.patched.NamesImage .patched "102 44332211\n104 88776655".toList :=
    ⟨_, by decide +kernel, rfl⟩
  obtain ⟨hok, -, himage⟩ := initial_memory_exact hc ⟨#[1, 2, 3]⟩ htext
  obtain ⟨-, hfails, -⟩ := initial_memory_exact hc ⟨#[1, 2, 3, 4, 5, 6, 7, 8, 9]⟩ htext
  refine ⟨?_, hfails.mpr (.inl (by decide)), ?_⟩
  · have hm : Memory.initial .patched ⟨#[1, 2, 3]⟩ .patched = .ok _ :=
      (Config.initial_eq_ok_iff hc htext).mpr ⟨by decide,
        [(0x102, 0x44332211), (0x104, 0x88776655)], by decide +kernel,
        List.forall_mem_cons.mpr ⟨by decide, List.forall_mem_singleton.mpr (by decide)⟩, rfl⟩
    obtain ⟨ps, hps, hholds⟩ := hok _ hm
    have hread : ImageText.readImage "102 44332211\n104 88776655".toList =
      .ok [(0x102, 0x44332211), (0x104, 0x88776655)] := by decide +kernel
    cases hps.symm.trans hread
    exact ⟨_, hm, hholds.base, hholds.size, hholds.map_byteAt.trans (by decide +kernel)⟩
  · obtain ⟨d, hd, hholds⟩ := (himage (.zeros 0 8) "1 AABBCCDD\n5 11223344\n0 55667788".toList).2
      [(1, 0xAABBCCDD)] (5, 0x11223344) [(0, 0x55667788)] (by decide +kernel)
      (List.forall_mem_singleton.mpr (by decide)) (by decide)
    exact ⟨d, hd, hholds.map_byteAt.trans (by decide +kernel)⟩

end FiveStage
