import FiveStage.Proofs.Execution
import FiveStage.Proofs.Fields

/-! # The legality table

The table by which a word is an instruction: the combinations of minor opcode and upper bits that
each major opcode allows, its format and its flags. A row selects words by their bits and admits
fields by their values. The two agree with each other and with the class that the decoder finds
(`selects_row_iff`, `selects_row_iff_combines`), so that between the legal words and the admitted
fields the decoder is a bijection (`decoder_bijective`). -/

namespace FiveStage

/-- What is asked of the upper bits of a word. -/
inductive Upper
  /-- nothing -/
  | free
  /-- bits 31 to 25 are one of the codes -/
  | seven (codes : List Nat)
  /-- bits 31 to 26 are; the bit below them belongs to a shift amount of six bits -/
  | six (codes : List Nat)

/-- Whether the upper seven bits are as asked. -/
def Upper.Allows : Upper → Nat → Prop
  | free, _ => True
  | seven codes, f7 => f7 ∈ codes
  | six codes, f7 => f7 / 2 ∈ codes

/-- A row of the table: an opcode with its format, its flags, and what it combines of minor opcodes
and upper bits. -/
structure Row where
  opcode : Nat
  format : Format
  flags : Flags
  combinations : List (List Nat × Upper)

/-- The row of a class of instructions. -/
def Opcode.row : Opcode → Row
  | .op =>
    { opcode := 0x33, format := .R
      flags :=
        { legal := true, arithLogic := true, writesRd := true, readsRs1 := true, readsRs2 := true }
      combinations :=
        [([0], .seven [0x00, 0x20]), ([1, 2, 3, 4, 6, 7], .seven [0x00]),
          ([5], .seven [0x00, 0x20])] }
  | .op32 =>
    { opcode := 0x3B, format := .R
      flags :=
        { legal := true, arithLogic := true, writesRd := true, readsRs1 := true, readsRs2 := true }
      combinations :=
        [([0], .seven [0x00, 0x20]), ([1], .seven [0x00]), ([5], .seven [0x00, 0x20])] }
  | .opImm =>
    { opcode := 0x13, format := .I
      flags := { legal := true, arithLogic := true, writesRd := true, readsRs1 := true }
      combinations := [([0, 2, 3, 4, 6, 7], .free), ([1], .six [0x00]), ([5], .six [0x00, 0x10])] }
  | .opImm32 =>
    { opcode := 0x1B, format := .I
      flags := { legal := true, arithLogic := true, writesRd := true, readsRs1 := true }
      combinations := [([0], .free), ([1], .seven [0x00]), ([5], .seven [0x00, 0x20])] }
  | .load =>
    { opcode := 0x03, format := .I
      flags := { legal := true, readsMem := true, writesRd := true, readsRs1 := true }
      combinations := [([0, 1, 2, 3, 4, 5, 6], .free)] }
  | .store =>
    { opcode := 0x23, format := .S
      flags := { legal := true, writesMem := true, readsRs1 := true, readsRs2 := true }
      combinations := [([0, 1, 2, 3], .free)] }
  | .branch =>
    { opcode := 0x63, format := .B
      flags := { legal := true, readsRs1 := true, readsRs2 := true }
      combinations := [([0, 1, 4, 5, 6, 7], .free)] }
  | .jal =>
    { opcode := 0x6F, format := .J
      flags := { legal := true, arithLogic := true, writesRd := true }
      combinations := [([0, 1, 2, 3, 4, 5, 6, 7], .free)] }
  | .jalr =>
    { opcode := 0x67, format := .I
      flags := { legal := true, arithLogic := true, writesRd := true, readsRs1 := true }
      combinations := [([0], .free)] }
  | .lui =>
    { opcode := 0x37, format := .U
      flags := { legal := true, arithLogic := true, writesRd := true }
      combinations := [([0, 1, 2, 3, 4, 5, 6, 7], .free)] }
  | .auipc =>
    { opcode := 0x17, format := .U
      flags := { legal := true, arithLogic := true, writesRd := true }
      combinations := [([0, 1, 2, 3, 4, 5, 6, 7], .free)] }

/-- The legality table. -/
def legalityTable : List Row :=
  [Opcode.op, .op32, .opImm, .opImm32, .load, .store, .branch, .jal, .jalr, .lui, .auipc].map
    Opcode.row

namespace Row

/-- A row combines a minor opcode with given upper bits. -/
def Allows (r : Row) (f3 f7 : Nat) : Prop :=
  ∃ p ∈ r.combinations, f3 ∈ p.1 ∧ p.2.Allows f7

/-- A word has the opcode of a row and one of its combinations. -/
def Selects (r : Row) (w : InstWord) : Prop :=
  w.bits 0 7 = r.opcode ∧ r.Allows (w.bits 12 3) (w.bits 25 7)

/-- What some fields have of a minor opcode and of upper bits is one of the combinations. -/
def Combines (r : Row) : Fields → Prop
  | .R f3 f7 _ _ _ => r.Allows f3 f7
  | .I f3 _ _ imm => r.Allows f3 (immBits imm 5 7)
  | .S f3 _ _ _ | .B f3 _ _ _ => ∃ f7, r.Allows f3 f7
  | .U _ _ | .J _ _ => True

/-- The fields of an instruction of a row: they have its format, fit it and are combined by it. -/
structure Admits (r : Row) (x : Fields) : Prop where
  format : x.format = r.format
  fit : x.Fit
  combines : r.Combines x

/-- An instruction fetched from an address is what a row makes of given fields. -/
structure Decodes (r : Row) (x : Fields) (pc : Word) (i : Instruction) : Prop where
  opcode : i.opcode = r.opcode
  fields : i.fields r.format = x
  immediate : r.format = .R → i.imm = 0
  flags : i.flags = r.flags
  nextPc : i.nextPc = pc + 4

end Row

namespace Opcode

theorem ofCode?_code (o : Opcode) : ofCode? o.code = some o := by cases o <;> rfl

theorem ofCode?_eq_some_iff {n : Nat} {o : Opcode} : ofCode? n = some o ↔ n = o.code := by
  refine ⟨fun h => ?_, fun h => h ▸ ofCode?_code o⟩
  unfold ofCode? at h
  split at h <;> cases h <;> rfl

theorem mem_legalityTable {r : Row} : r ∈ legalityTable ↔ ∃ o : Opcode, o.row = r := by
  have hall (o : Opcode) :
      o ∈ [op, op32, opImm, opImm32, load, store, branch, jal, jalr, lui, auipc] := by
    cases o <;> decide
  simp only [legalityTable, List.mem_map, hall, true_and]

variable (o : Opcode)

theorem opcode_row : o.row.opcode = o.code := by cases o <;> rfl

theorem format_row : o.row.format = o.format := by cases o <;> rfl

theorem flags_row : o.row.flags = o.flags := by cases o <;> rfl

theorem code_lt : o.code < 128 := by cases o <;> decide

/-- The row of a class combines what the class accepts. -/
theorem allows_row {f3 f7 : Nat} (hf : f3 < 8) :
    o.row.Allows f3 f7 ↔ o.accepts f3 f7 = true := by
  cases o <;> simp [row, Row.Allows, Upper.Allows, accepts]
  all_goals grind

end Opcode

namespace InstWord

variable {w : InstWord} {o : Opcode}

theorem opcode_eq (w : InstWord) : w.opcode = w.bits 0 7 := toNat_extract w 0 7

theorem class_eq_some_iff :
    w.class? = some o ↔ Opcode.ofCode? w.opcode = some o ∧ o.accepts w.funct3 w.funct7 = true := by
  unfold class?
  cases Opcode.ofCode? w.opcode with
  | none => simp
  | some o' =>
    constructor
    · intro h
      obtain ⟨ha, h⟩ := Option.ite_none_right_eq_some.mp h
      cases h
      exact ⟨rfl, ha⟩
    · rintro ⟨h, ha⟩
      cases h
      exact if_pos ha

/-- The row of a class selects the words that are instructions of the class. -/
theorem selects_row_iff : o.row.Selects w ↔ w.class? = some o := by
  rw [class_eq_some_iff, Row.Selects, o.opcode_row, Opcode.ofCode?_eq_some_iff, opcode_eq]
  refine and_congr_right fun _ => ?_
  rw [funct3, funct7, toNat_extract, toNat_extract]
  exact o.allows_row (w.bits_lt 12 3)

theorem ofClass_of_class (hc : w.class? = some o) (hn : w ≠ nop) : w.OfClass o := by
  have hcode := (class_eq_some_iff.mp hc).1
  have hh : w ≠ halt := by
    rintro rfl
    have hnone : Opcode.ofCode? (opcode halt) = none := by decide
    rw [hnone] at hcode
    cases hcode
  refine ⟨hcode, ?_, ?_⟩
  · rw [flags, if_neg hh, if_neg hn, hc]
  · rw [immediate, if_neg (by simp [hh, hn]), hc]

theorem legal_iff (hh : w ≠ halt) (hn : w ≠ nop) :
    w.flags.legal = true ↔ ∃ o, w.class? = some o := by
  constructor
  · intro hl
    obtain ⟨o, hc, ha⟩ := ofClass_of_legal hl hh hn
    exact ⟨o, class_eq_some_iff.mpr ⟨hc.code, ha⟩⟩
  · rintro ⟨o, hc⟩
    rw [(ofClass_of_class hc hn).flags, o.legal_flags]

/-- A word that is no instruction has no immediate. -/
theorem immediate_illegal (hl : w.flags.legal = false) : w.immediate = 0 := by
  by_cases hs : w = halt ∨ w = nop
  · exact if_pos hs
  · have hnone : w.class? = none := by
      rw [not_or] at hs
      apply Option.eq_none_iff_forall_ne_some.mpr
      intro o hc
      rw [(legal_iff hs.1 hs.2).mpr ⟨o, hc⟩] at hl
      cases hl
    rw [immediate, if_neg hs, hnone]

/-- The decoded record shows the fields that stand in the word. -/
theorem OfClass.fields_decode (hc : w.OfClass o) (pc : Word) :
    (decode pc w).fields o.format = w.fields o.format := by
  have himm : (decode pc w).imm = o.format.immediate w := hc.immediate
  have hnat : (decode pc w).funct3 = w.bits 12 3 ∧ (decode pc w).funct7 = w.bits 25 7 ∧
      (decode pc w).rd = w.bits 7 5 ∧ (decode pc w).rs1 = w.bits 15 5 ∧
      (decode pc w).rs2 = w.bits 20 5 :=
    ⟨toNat_extract w 12 3, toNat_extract w 25 7, toNat_extract w 7 5, toNat_extract w 15 5,
      toNat_extract w 20 5⟩
  cases hf : o.format <;>
    simp only [Instruction.fields, fields, himm, hf, Format.immediate, hnat, toInt_immI,
      toInt_immS, toInt_immB, toInt_immU, toInt_immJ]

/-- Whether a row selects a word with its opcode can be told from the fields of its format. -/
theorem selects_row_iff_combines (hop : w.bits 0 7 = o.code) :
    o.row.Selects w ↔ o.row.Combines (w.fields o.format) := by
  have hfree (ha : ∀ f3 f7 f7', o.accepts f3 f7 = o.accepts f3 f7') :
      o.row.Allows (w.bits 12 3) (w.bits 25 7) ↔ ∃ f7, o.row.Allows (w.bits 12 3) f7 := by
    simp only [o.allows_row (w.bits_lt 12 3)]
    exact ⟨fun h => ⟨_, h⟩, fun ⟨f7, h⟩ => ha _ f7 _ ▸ h⟩
  have hall (ha : ∀ f3 f7, o.accepts f3 f7 = true) :
      o.row.Allows (w.bits 12 3) (w.bits 25 7) ↔ True := by
    simp only [o.allows_row (w.bits_lt 12 3), ha]
  rw [Row.Selects, o.opcode_row, and_iff_right hop]
  cases o with
  | op | op32 => exact Iff.rfl
  | opImm | opImm32 | load | jalr =>
    show _ ↔ Row.Allows _ _ (immBits w.signedI 5 7)
    rw [w.pieces_signedI.2]
  | store | branch => exact hfree fun _ _ _ => rfl
  | jal | lui | auipc => exact hall fun _ _ => rfl

end InstWord

namespace Row

variable {r : Row} {w : InstWord} {x : Fields}

/-- The fields of a word that a row selects are such as the row admits. -/
theorem admits_of_selects (hr : r ∈ legalityTable) (hs : r.Selects w) :
    r.Admits (w.fields r.format) := by
  obtain ⟨o, rfl⟩ := Opcode.mem_legalityTable.mp hr
  refine ⟨w.format_fields _, w.fit_fields _, ?_⟩
  rw [o.format_row]
  exact (InstWord.selects_row_iff_combines (hs.1.trans o.opcode_row)).mp hs

/-- The decoder reads the fields of a selected word in the format of the row. -/
theorem fields_of_selects (hr : r ∈ legalityTable) (hs : r.Selects w) (hn : w ≠ InstWord.nop)
    (pc : Word) : (decode pc w).fields r.format = w.fields r.format := by
  obtain ⟨o, rfl⟩ := Opcode.mem_legalityTable.mp hr
  rw [o.format_row]
  exact (InstWord.ofClass_of_class (InstWord.selects_row_iff.mp hs) hn).fields_decode pc

theorem opcode_lt (hr : r ∈ legalityTable) : r.opcode < 128 := by
  obtain ⟨o, rfl⟩ := Opcode.mem_legalityTable.mp hr
  exact o.opcode_row ▸ o.code_lt

/-- A word made of fields that a row admits has these fields. -/
theorem fields_encode (hr : r ∈ legalityTable) (hx : r.Admits x) :
    (x.encode r.opcode).fields r.format = x :=
  hx.format ▸ Fields.fields_encode (opcode_lt hr) hx.fit

/-- A word made of fields that a row admits is selected by it. -/
theorem selects_encode (hr : r ∈ legalityTable) (hx : r.Admits x) :
    r.Selects (x.encode r.opcode) := by
  have hfields := fields_encode hr hx
  have hop := Fields.opcode_encode (opcode_lt hr) hx.fit
  obtain ⟨o, rfl⟩ := Opcode.mem_legalityTable.mp hr
  rw [o.format_row] at hfields
  refine (InstWord.selects_row_iff_combines (hop.trans o.opcode_row)).mpr ?_
  rw [hfields]
  exact hx.combines

theorem decodes_encode (hr : r ∈ legalityTable) (hx : r.Admits x)
    (hn : x.encode r.opcode ≠ InstWord.nop) (pc : Word) :
    r.Decodes x pc (decode pc (x.encode r.opcode)) := by
  have hs := selects_encode hr hx
  have hfields := (fields_of_selects hr hs hn pc).trans (fields_encode hr hx)
  have hop := (InstWord.opcode_eq _).trans hs.1
  obtain ⟨o, rfl⟩ := Opcode.mem_legalityTable.mp hr
  have hc := InstWord.ofClass_of_class (InstWord.selects_row_iff.mp hs) hn
  refine ⟨hop, hfields, fun hR => ?_, hc.flags.trans o.flags_row.symm, rfl⟩
  refine hc.immediate.trans ?_
  rw [← o.format_row, hR]
  rfl

end Row

/-- The legal words are those that a row of the table selects. -/
theorem legal_iff_selects {w : InstWord} (hh : w ≠ InstWord.halt) (hn : w ≠ InstWord.nop) :
    w.flags.legal = true ↔ ∃ r ∈ legalityTable, r.Selects w := by
  refine (InstWord.legal_iff hh hn).trans ⟨fun ⟨o, hc⟩ => ?_, fun ⟨r, hr, hs⟩ => ?_⟩
  · exact ⟨_, Opcode.mem_legalityTable.mpr ⟨o, rfl⟩, InstWord.selects_row_iff.mpr hc⟩
  · obtain ⟨o, rfl⟩ := Opcode.mem_legalityTable.mp hr
    exact ⟨o, InstWord.selects_row_iff.mp hs⟩

/-- The halt word and the no-op apart, the legal words are those that the table selects; such a word
is decoded to fields that the table admits and of which it is made, any admitted fields but those of
the no-op are what the word made of them is decoded to, and an illegal word is decoded to
nothing. -/
theorem decoder_bijective (pc : Word) :
    (∀ w : InstWord, w ≠ InstWord.halt → w ≠ InstWord.nop →
      ((decode pc w).flags.legal = true ↔ ∃ r ∈ legalityTable, r.Selects w) ∧
      ∀ r ∈ legalityTable, r.Selects w →
        r.Admits ((decode pc w).fields r.format) ∧
        ((decode pc w).fields r.format).encode (decode pc w).opcode = w) ∧
    (∀ r ∈ legalityTable, ∀ x : Fields, r.Admits x → x.encode r.opcode ≠ InstWord.nop →
      r.Decodes x pc (decode pc (x.encode r.opcode))) ∧
    ∀ w : InstWord, (decode pc w).flags.legal = false →
      (decode pc w).flags = {} ∧ (decode pc w).imm = 0 := by
  refine ⟨fun w hh hn => ⟨legal_iff_selects hh hn, fun r hr hs => ?_⟩,
    fun r hr x hx hn => r.decodes_encode hr hx hn pc,
    fun w hl => ⟨InstWord.flags_illegal hl, InstWord.immediate_illegal hl⟩⟩
  rw [Row.fields_of_selects hr hs hn pc]
  refine ⟨Row.admits_of_selects hr hs, ?_⟩
  rw [show (decode pc w).opcode = w.bits 0 7 from w.opcode_eq, w.encode_fields]

/-- A branch back by 1366 bytes, taken when register 5 is less than register 6. -/
def Fields.backward : Fields := .B 4 5 6 (-1366)

/-- Its displacement is scattered over the word and gathered again. -/
theorem decoder_bijective_backward :
    Opcode.branch.row.Admits .backward ∧ Fields.encode 0x63 .backward = 0xAA62C5E3 ∧
    Opcode.branch.row.Selects 0xAA62C5E3 ∧ (decode 0 0xAA62C5E3).flags.legal = true ∧
    (decode 0 0xAA62C5E3).fields .B = .backward ∧ (decode 0 0xAA62C5E3).nextPc = 4 ∧
    (decode 0 0).flags.legal = false ∧ (decode 0 0).flags = {} ∧ (decode 0 0).imm = 0 := by
  have hr : Opcode.branch.row ∈ legalityTable := Opcode.mem_legalityTable.mpr ⟨_, rfl⟩
  have hadmits : Opcode.branch.row.Admits .backward :=
    ⟨rfl, by simp [Fields.backward, Fields.Fit], 0, _, .head _, by decide, trivial⟩
  have hword : Fields.encode 0x63 .backward = 0xAA62C5E3 := by decide +kernel
  have hselects : Opcode.branch.row.Selects 0xAA62C5E3 :=
    ⟨by decide +kernel, _, .head _, by decide +kernel, trivial⟩
  have hzero : (decode 0 0).flags.legal = false := by decide
  obtain ⟨hwords, hrows, hillegal⟩ := decoder_bijective 0
  have hd := hrows _ hr .backward hadmits (by decide +kernel)
  rw [show Opcode.branch.row.opcode = 0x63 from rfl, hword] at hd
  exact ⟨hadmits, hword, hselects,
    (hwords 0xAA62C5E3 (by decide) (by decide)).1.mpr ⟨_, hr, hselects⟩, hd.fields, hd.nextPc,
    hzero, hillegal 0 hzero⟩

end FiveStage
