import FiveStage.Proofs.Disassembly
import FiveStage.Report.PipelineDiagram

/-! # Reading a diagram of the pipeline

A line of the diagram is read column by column, since no text in it has the bar that stands between
columns (`stageColumns_unique`). In a column the assembly text is told from the remark behind it by
the last token: a remark begins with a bracket, and no token of assembly text does
(`stageText_unique`). -/

namespace FiveStage

open Text

/-- The characters that end a column and a line of the diagram. -/
def columnEnds : List Char := ['|', '\n']

theorem columnEnds_cases {c : Char} (hc : c ∈ columnEnds) : c = '|' ∨ c = '\n' := by
  simpa only [columnEnds, List.mem_cons, List.not_mem_nil, or_false] using hc

/-- No plain text has a character that ends a column. -/
theorem columnEnds_plain {c : Char} (hc : c ∈ columnEnds) :
    c ∈ [' ', ',', '(', ')', '|', '\n'] := by
  rcases columnEnds_cases hc with rfl | rfl <;> decide

section Tokens

variable {s t : String}

/-- A text without blanks that begins with no bracket. -/
structure Token (s : String) : Prop where
  ne_empty : s ≠ ""
  solid : ' ' ∉ s.toList
  opening : s.toList.head? ≠ some '('

theorem Token.of_plain (hs : Plain s) (hne : s ≠ "") : Token s where
  ne_empty := hne
  solid := hs.notMem (by decide)
  opening := fun h => hs.notMem (by decide) (List.mem_of_mem_head? h)

theorem Token.append (hs : Token s) (ht : ' ' ∉ t.toList) : Token (s ++ t) where
  ne_empty := fun h => hs.ne_empty (String.append_eq_empty_iff.mp h).1
  solid := by
    rw [String.toList_append, List.mem_append, not_or]
    exact ⟨hs.solid, ht⟩
  opening := by
    have hne : s.toList ≠ [] := fun h => hs.ne_empty (String.toList_eq_nil_iff.mp h)
    rw [String.toList_append, List.head?_append_of_ne_nil _ hne]
    exact hs.opening

theorem token_registerName {r : Nat} (h : r < 32) : Token (registerName r) := by
  have key : ∀ r < 32, registerName r ≠ "" := by decide +kernel
  exact .of_plain (plain_registerName h) (key r h)

theorem token_decimal (n : Nat) : Token (decimal n) := by
  refine .of_plain (plain_decimal n) fun h => ?_
  exact Nat.toDigits_ne_nil (String.ofList_eq_empty_iff.mp h)

theorem token_signedDecimal (z : Int) : Token (signedDecimal z) := by
  cases z with
  | ofNat n => exact token_decimal n
  | negSucc n => exact .append ⟨by decide, by decide, by decide⟩ (token_decimal _).solid

theorem token_hex (n : Nat) : Token (hex n) :=
  .append ⟨by decide, by decide, by decide⟩
    ((plain_toDigits (by decide) (by decide)).notMem (by decide))

end Tokens

namespace InstWord

variable (w : InstWord)

theorem append_comma (a b : String) : a ++ ", " ++ b = a ++ "," ++ " " ++ b := by
  have h : a ++ "," ++ " " = a ++ ", " := String.append_assoc
  rw [h]

/-- The operands end in a token of their own. -/
theorem operands_last (o : Opcode) :
    ∃ front token, w.operands o = front ++ " " ++ token ∧ Token token := by
  have hrs1 := token_registerName w.rs1_lt
  have hdisplaced (z : Int) : Token (signedDecimal z ++ ("(" ++ (registerName w.rs1 ++ ")"))) := by
    refine (token_signedDecimal z).append ?_
    simp [String.toList_append, hrs1.solid]
  have hshown (front : String) (z : Int) :
      front ++ ", " ++ signedDecimal z ++ "(" ++ registerName w.rs1 ++ ")" =
        front ++ "," ++ " " ++ (signedDecimal z ++ ("(" ++ (registerName w.rs1 ++ ")"))) := by
    rw [← append_comma]
    simp only [String.append_assoc]
  cases o with
  | op | op32 => exact ⟨_, _, append_comma _ _, token_registerName w.rs2_lt⟩
  | opImm | opImm32 =>
    refine ⟨_, _, append_comma _ _, ?_⟩
    split
    · exact token_decimal _
    · exact token_signedDecimal _
  | load | jalr => exact ⟨_, _, hshown _ _, hdisplaced _⟩
  | store => exact ⟨_, _, hshown _ _, hdisplaced _⟩
  | branch | jal => exact ⟨_, _, append_comma _ _, token_signedDecimal _⟩
  | lui | auipc => exact ⟨_, _, append_comma _ _, token_hex _⟩

theorem notMem_operands (o : Opcode) {c : Char} (hc : c ∈ columnEnds) :
    c ∉ (w.operands o).toList := by
  have hplain := columnEnds_plain hc
  have hseparators : c ≠ ' ' ∧ c ≠ ',' ∧ c ≠ '(' ∧ c ≠ ')' := by
    rcases columnEnds_cases hc with rfl | rfl <;> decide
  have hrd := (plain_registerName (Instruction.rd_lt w)).notMem hplain
  have hrs1 := (plain_registerName w.rs1_lt).notMem hplain
  have hrs2 := (plain_registerName w.rs2_lt).notMem hplain
  have hdec (n : Nat) := (plain_decimal n).notMem hplain
  have hint (z : Int) := (plain_signedDecimal z).notMem hplain
  have hhex (n : Nat) := (plain_hex n).notMem hplain
  cases o with
  | opImm | opImm32 =>
    simp only [operands]
    split <;> simp [String.toList_append, hrd, hrs1, hdec, hint, hseparators]
  | _ => simp [operands, String.toList_append, hrd, hrs1, hrs2, hint, hhex, hseparators]

variable {w}

/-- The forms that the text of a word can have. -/
theorem assembly_cases (w : InstWord) :
    w.assembly ∈ ["HALT", "NOP", "ILLEGAL"] ∨ ∃ k o, w.Written k o := by
  cases hl : w.flags.legal with
  | false =>
    rw [assembly_of_illegal hl]
    exact .inl (by decide)
  | true =>
    by_cases hh : w = halt
    · rw [hh]
      exact .inl (by decide)
    by_cases hn : w = nop
    · rw [hn]
      exact .inl (by decide)
    · exact .inr (written_of_legal hl hh hn)

end InstWord

namespace Instruction

variable {i j : Instruction}

/-- The assembly text that stands in a slot. -/
def shown (i : Instruction) : String := if i.isFetched then i.raw.assembly else "NOP"

theorem notMem_shown (i : Instruction) {c : Char} (hc : c ∈ columnEnds) : c ∉ i.shown.toList := by
  have hplain := columnEnds_plain hc
  have hfixed : c ∉ "HALT".toList ∧ c ∉ "NOP".toList ∧ c ∉ "ILLEGAL".toList ∧
      c ∉ " ".toList := by
    rcases columnEnds_cases hc with rfl | rfl <;> decide
  unfold shown
  split
  · rcases i.raw.assembly_cases with h | ⟨k, o, hw⟩
    · simp only [List.mem_cons, List.not_mem_nil, or_false] at h
      rcases h with h | h | h <;> rw [h]
      · exact hfixed.1
      · exact hfixed.2.1
      · exact hfixed.2.2.1
    · rw [hw.text, String.toList_append, String.toList_append, List.mem_append, List.mem_append,
        not_or, not_or]
      exact ⟨k.plain_name.notMem hplain, hfixed.2.2.2, i.raw.notMem_operands o hc⟩
  · exact hfixed.2.1

theorem shown_last (i : Instruction) :
    ∃ front token, " " ++ i.shown = front ++ " " ++ token ∧ Token token := by
  have hone : ∀ t ∈ ["HALT", "NOP", "ILLEGAL"], Token t := by
    intro t ht
    simp only [List.mem_cons, List.not_mem_nil, or_false] at ht
    rcases ht with rfl | rfl | rfl <;> exact ⟨by decide, by decide, by decide⟩
  have halone {t : String} (ht : t ∈ ["HALT", "NOP", "ILLEGAL"]) :
      ∃ front token, " " ++ t = front ++ " " ++ token ∧ Token token :=
    ⟨"", t, rfl, hone t ht⟩
  unfold shown
  split
  · rcases i.raw.assembly_cases with h | ⟨k, o, hw⟩
    · exact halone h
    · obtain ⟨front, token, hops, ht⟩ := i.raw.operands_last o
      refine ⟨" " ++ (k.name ++ (" " ++ front)), token, ?_, ht⟩
      rw [hw.text, hops]
      simp only [String.append_assoc]
  · exact halone (by decide)

end Instruction

/-- The remark on a slot that holds no plain work, a token that begins with a bracket. -/
theorem SlotStatus.label_remark {s : SlotStatus} (h : s ≠ .normal) :
    ∃ remark, s.label = " " ++ remark ++ " " ∧ remark ≠ "" ∧ ' ' ∉ remark.toList ∧
      remark.toList.head? = some '(' := by
  cases s with
  | normal => exact absurd rfl h
  | bubble => exact ⟨"(bubble)", rfl, by decide, by decide, by decide⟩
  | idle => exact ⟨"(idle)", rfl, by decide, by decide, by decide⟩
  | speculative => exact ⟨"(spcu)", rfl, by decide, by decide, by decide⟩
  | squashed => exact ⟨"(squashed)", rfl, by decide, by decide, by decide⟩

theorem SlotStatus.label_injective {s t : SlotStatus} (h : s.label = t.label) : s = t := by
  cases s <;> cases t <;> first | rfl | exact absurd h (by decide)

namespace Instruction

variable {i j : Instruction}

/-- How the text of a slot ends: in a token of assembly text, or in a remark that is none. -/
structure Ends (i : Instruction) (front token : String) : Prop where
  text : i.stageText = front ++ " " ++ token ++ " "
  ne_empty : token ≠ ""
  solid : ' ' ∉ token.toList
  plain : token.toList.head? ≠ some '(' →
    i.status = .normal ∧ " " ++ i.shown = front ++ " " ++ token
  remark : token.toList.head? = some '(' →
    front = " " ++ i.shown ∧ i.status.label = " " ++ token ++ " "

theorem exists_ends (i : Instruction) : ∃ front token, i.Ends front token := by
  have htext : i.stageText = " " ++ i.shown ++ i.status.label := rfl
  by_cases hn : i.status = .normal
  · obtain ⟨front, token, hshown, ht⟩ := i.shown_last
    refine ⟨front, token, ?_, ht.ne_empty, ht.solid, fun _ => ⟨hn, hshown⟩,
      fun h => absurd h ht.opening⟩
    rw [htext, hshown, hn]
    rfl
  · obtain ⟨token, hlabel, hne, hsolid, hopen⟩ := SlotStatus.label_remark hn
    refine ⟨" " ++ i.shown, token, ?_, hne, hsolid, fun h => absurd hopen h, fun _ => ⟨rfl, hlabel⟩⟩
    rw [htext, hlabel]
    simp only [String.append_assoc]

theorem Ends.toList_padRight {front token : String} (h : i.Ends front token) (n : Nat) :
    ∃ m, (padRight n i.stageText).toList =
      (front ++ " " ++ token).toList ++ List.replicate m ' ' := by
  refine ⟨n - i.stageText.length + 1, ?_⟩
  rw [padRight, String.toList_append, String.toList_ofList, h.text, String.toList_append,
    List.replicate_succ, List.append_assoc]
  rfl

/-- The text of a slot, filled up with blanks, tells the status and the assembly text. -/
theorem stageText_unique {n : Nat} (h : padRight n i.stageText = padRight n j.stageText) :
    i.status = j.status ∧ i.shown = j.shown := by
  obtain ⟨front, token, hi⟩ := i.exists_ends
  obtain ⟨front', token', hj⟩ := j.exists_ends
  obtain ⟨m, hm⟩ := hi.toList_padRight n
  obtain ⟨m', hm'⟩ := hj.toList_padRight n
  obtain ⟨rfl, rfl⟩ := last_token hi.ne_empty hj.ne_empty hi.solid hj.solid
    (hm.symm.trans ((congrArg String.toList h).trans hm'))
  by_cases hopen : token.toList.head? = some '('
  · obtain ⟨hfront, hlabel⟩ := hi.remark hopen
    obtain ⟨hfront', hlabel'⟩ := hj.remark hopen
    exact ⟨SlotStatus.label_injective (hlabel.trans hlabel'.symm),
      (String.append_right_inj _).mp (hfront.symm.trans hfront')⟩
  · obtain ⟨hstatus, hshown⟩ := hi.plain hopen
    obtain ⟨hstatus', hshown'⟩ := hj.plain hopen
    exact ⟨hstatus.trans hstatus'.symm, (String.append_right_inj _).mp (hshown.trans hshown'.symm)⟩

theorem notMem_label (s : SlotStatus) {c : Char} (hc : c ∈ columnEnds) : c ∉ s.label.toList := by
  rcases columnEnds_cases hc with rfl | rfl <;> cases s <;> decide

theorem notMem_stageText (i : Instruction) (n : Nat) {c : Char} (hc : c ∈ columnEnds) :
    c ∉ (padRight n i.stageText).toList := by
  have hblank : c ≠ ' ' := by
    rcases columnEnds_cases hc with rfl | rfl <;> decide
  simp [padRight, stageText, ← shown.eq_1, String.toList_append, i.notMem_shown hc,
    notMem_label _ hc, hblank]

theorem notMem_fetchText (i : Instruction) (n : Nat) {c : Char} (hc : c ∈ columnEnds) :
    c ∉ (padRight n i.fetchText).toList := by
  have ⟨hblank, hfront⟩ : c ≠ ' ' ∧ c ∉ " Inst at ".toList := by
    rcases columnEnds_cases hc with rfl | rfl <;> decide
  have hhex := (plain_hex i.pc.toNat).notMem (columnEnds_plain hc)
  simp only [padRight, fetchText, String.toList_append, String.toList_ofList, List.mem_append,
    List.mem_replicate, not_or]
  exact ⟨⟨⟨hfront, hhex⟩, notMem_label _ hc⟩, fun h => hblank h.2⟩

/-- Work that is legal is told from everything else by the text of its slot. -/
theorem raw_unique {n : Nat} (h : padRight n i.stageText = padRight n j.stageText)
    (hf : i.isFetched = true) (hl : i.raw.flags.legal = true) :
    j.status = i.status ∧ j.raw = i.raw := by
  obtain ⟨hstatus, hshown⟩ := stageText_unique h
  have hf' : j.isFetched = true := by
    unfold isFetched at hf ⊢
    rw [← hstatus]
    exact hf
  unfold shown at hshown
  rw [if_pos hf, if_pos hf'] at hshown
  refine ⟨hstatus.symm, (InstWord.assembly_injective hl ?_ hshown).symm⟩
  -- the other word is legal, as its text is not that of an illegal word
  have hill : j.raw.flags.legal ≠ false := by
    rw [Ne, ← InstWord.assembly_eq_illegal_iff, ← hshown, InstWord.assembly_eq_illegal_iff, hl]
    decide
  simpa using hill

end Instruction

/-- The stages behind fetch, which the diagram shows as assembly text. -/
def Slots.behindFetch : List (Slots → Instruction) := [decode, execute, memory, writeback]

theorem Snapshot.notMem_cycle (s : Snapshot) {c : Char} (hc : c ∈ columnEnds) :
    c ∉ ("Cycle: " ++ (padLeft 8 ' ' (decimal s.cycle) ++ "\t")).toList := by
  have ⟨hblank, hfront, htab⟩ : c ≠ ' ' ∧ c ∉ "Cycle: ".toList ∧ c ∉ "\t".toList := by
    rcases columnEnds_cases hc with rfl | rfl <;> decide
  have hdec := (plain_decimal s.cycle).notMem (columnEnds_plain hc)
  simp only [padLeft, String.toList_append, String.toList_ofList, List.mem_append,
    List.mem_replicate, not_or]
  exact ⟨hfront, ⟨fun h => hblank h.2, hdec⟩, htab⟩

/-- The line of a cycle is one line. -/
theorem Snapshot.notMem_line (s : Snapshot) : '\n' ∉ s.line.toList := by
  have hend : '\n' ∈ columnEnds := .tail _ (.head _)
  have hcycle := s.notMem_cycle hend
  have hstage (i : Instruction) := i.notMem_stageText stageWidth hend
  have hfetch := s.slots.fetch.notMem_fetchText stageWidth hend
  simp only [String.toList_append, List.mem_append, not_or] at hcycle
  simp [line, diagramColumn, String.toList_append, hcycle, hstage, hfetch]

/-- Equal lines of a diagram agree column by column. -/
theorem stageColumns_unique {s s' : Snapshot} (h : s.line = s'.line) :
    ∀ slot ∈ Slots.behindFetch, padRight stageWidth (slot s.slots).stageText =
      padRight stageWidth (slot s'.slots).stageText := by
  have hcycle (s : Snapshot) := s.notMem_cycle (List.mem_cons_self (a := '|'))
  have hline (s : Snapshot) : s.line =
      "Cycle: " ++ (padLeft 8 ' ' (decimal s.cycle) ++ "\t") ++ ("||" ++
        (padRight stageWidth s.slots.fetch.fetchText ++ ("|" ++
          (padRight stageWidth s.slots.decode.stageText ++ ("|" ++
            (padRight stageWidth s.slots.execute.stageText ++ ("|" ++
              (padRight stageWidth s.slots.memory.stageText ++ ("|" ++
                (padRight stageWidth s.slots.writeback.stageText ++ ("|" ++ ""))))))))))) := by
    have htab : "\t|" = "\t" ++ "|" := rfl
    have hbars : "||" = "|" ++ "|" := rfl
    rw [Snapshot.line, htab, hbars]
    simp only [diagramColumn, String.append_assoc, String.append_empty]
  have next {i j : Instruction} {rest rest' : String}
      (h : padRight stageWidth i.stageText ++ ("|" ++ rest) =
        padRight stageWidth j.stageText ++ ("|" ++ rest')) :=
    cut_text (c := '|') (t := []) rfl (i.notMem_stageText _ (.head _))
      (j.notMem_stageText _ (.head _)) h
  rw [hline, hline] at h
  obtain ⟨-, h⟩ := cut_text (c := '|') (t := ['|']) rfl (hcycle s) (hcycle s') h
  obtain ⟨-, h⟩ := cut_text (c := '|') (t := []) rfl (Instruction.notMem_fetchText _ _ (.head _))
    (Instruction.notMem_fetchText _ _ (.head _)) h
  obtain ⟨hd, h⟩ := next h
  obtain ⟨he, h⟩ := next h
  obtain ⟨hm, h⟩ := next h
  obtain ⟨hw, -⟩ := next h
  simp only [Slots.behindFetch, List.forall_mem_cons]
  exact ⟨hd, he, hm, hw, nofun⟩

/-- Assembly text calls a word illegal when the decoder does, has a mnemonic for the other words but
the halt word, and is never the same for two legal words. The line of a cycle therefore tells, of
every legal word at work behind fetch, which word it is. -/
theorem assembly_faithful (pc : Word) :
    (∀ w : InstWord, w.assembly = "ILLEGAL" ↔ (decode pc w).flags.legal = false) ∧
    (∀ w : InstWord,
      w.mnemonic?.isSome = true ↔ (decode pc w).flags.legal = true ∧ w ≠ InstWord.halt) ∧
    (∀ w w' : InstWord, (decode pc w).flags.legal = true → (decode pc w').flags.legal = true →
      w ≠ w' → w.assembly ≠ w'.assembly) ∧
    ∀ s s' : Snapshot, s.line = s'.line → ∀ slot ∈ Slots.behindFetch,
      (slot s.slots).isFetched = true → (slot s.slots).raw.flags.legal = true →
        (slot s'.slots).status = (slot s.slots).status ∧
        (slot s'.slots).raw = (slot s.slots).raw := by
  refine ⟨fun w => InstWord.assembly_eq_illegal_iff, fun w => InstWord.legal_iff_mnemonic,
    fun w w' hl hl' hne h => hne (InstWord.assembly_injective hl hl' h),
    fun s s' h slot hslot hf hl => ?_⟩
  exact Instruction.raw_unique (stageColumns_unique h slot hslot) hf hl

/-- A line with one shift at work behind fetch. -/
def Snapshot.shifting (w : InstWord) (result : Word) : Snapshot :=
  { slots := { memory := { raw := w, arithResult := result, status := .normal } } }

/-- A logical and an arithmetic shift by 63 differ in one bit, and in their mnemonics. What a shift
has computed is not shown. -/
theorem assembly_faithful_shifts :
    InstWord.assembly 0x03F0D093 = "srli ra, ra, 63" ∧
    InstWord.assembly 0x43F0D093 = "srai ra, ra, 63" ∧
    InstWord.assembly 0x03F0D093 ≠ InstWord.assembly 0x43F0D093 ∧
    (Snapshot.shifting 0x43F0D093 5).line = (Snapshot.shifting 0x43F0D093 7).line ∧
    (Snapshot.shifting 0x43F0D093 7).slots.memory.raw = 0x43F0D093 := by
  obtain ⟨-, -, hwords, hlines⟩ := assembly_faithful 0
  have hl : (decode 0 0x03F0D093).flags.legal = true := by decide
  have hl' : (decode 0 0x43F0D093).flags.legal = true := by decide
  have hline : (Snapshot.shifting 0x43F0D093 5).line = (Snapshot.shifting 0x43F0D093 7).line := rfl
  have hmem : Slots.memory ∈ Slots.behindFetch := .tail _ (.tail _ (.head _))
  exact ⟨by decide, by decide, hwords _ _ hl hl' (by decide), hline,
    (hlines _ _ hline _ hmem rfl (by decide)).2⟩

end FiveStage
