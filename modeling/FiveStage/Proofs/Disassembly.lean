import FiveStage.Proofs.Legality
import FiveStage.Proofs.Tokens

/-! # Assembly text

Assembly text names the legal words and no others (`legal_iff_mnemonic`), and every bit of a legal
word can be read off it: its mnemonic gives the class and what it fixes of the function bits
(`Encoding.class_unique` and the lemmas after it), its operands give the rest
(`operands_injective`). So no two legal words have the same text (`assembly_injective`). -/

namespace FiveStage

open Text

namespace Encoding

variable {k : Mnemonic} {o o' : Opcode} {f3 f7 f3' f7' : Nat}

theorem class_unique (he : Encoding k o f3 f7) (he' : Encoding k o' f3' f7') : o = o' := by
  cases he <;> cases he' <;> rfl

theorem minor_unique (he : Encoding k o f3 f7) (he' : Encoding k o f3' f7')
    (hf : o.format ≠ .U ∧ o.format ≠ .J) : f3 = f3' := by
  cases he <;> cases he' <;> first | rfl | simp [Opcode.format] at hf

theorem upper_unique (he : Encoding k o f3 f7) (he' : Encoding k o f3' f7')
    (hf : o.format = .R) : f7 = f7' := by
  cases he <;> cases he' <;> first | rfl | cases hf

/-- A shift by an immediate fixes the bits above the amount. -/
theorem shift_unique (he : Encoding k o f3 f7) (he' : Encoding k o f3' f7')
    (ho : o = .opImm ∨ o = .opImm32) (hs : f3 = 1 ∨ f3 = 5) : f7 / 2 = f7' / 2 := by
  cases he <;> cases he' <;> first | rfl | omega | simp at hs ho

end Encoding

/-- A mnemonic is given to what the class accepts. -/
theorem Opcode.accepts_of_mnemonic {o : Opcode} {f3 f7 : Nat} {name : String}
    (h : o.mnemonic? f3 f7 = some name) : o.accepts f3 f7 = true := by
  unfold mnemonic? at h
  split at h <;> simp_all [accepts]
  all_goals grind

section Names

theorem Mnemonic.plain_name (k : Mnemonic) : Plain k.name := by cases k <;> decide

theorem plain_registerName {r : Nat} (h : r < 32) : Plain (registerName r) := by
  have key : ∀ r < 32, Plain (registerName r) := by decide +kernel
  exact key r h

theorem registerName_injective {r r' : Nat} (h : r < 32) (h' : r' < 32)
    (hn : registerName r = registerName r') : r = r' := by
  have key : ∀ r < 32, ∀ r' < 32, registerName r = registerName r' → r = r' := by decide +kernel
  exact key r h r' h' hn

/-- The name of a register in front of a comma. -/
theorem cut_register {r r' : Nat} {rest rest' : String} (hr : r < 32) (hr' : r' < 32)
    (h : registerName r ++ (", " ++ rest) = registerName r' ++ (", " ++ rest')) :
    r = r' ∧ rest = rest' := by
  obtain ⟨hname, hrest⟩ := cut_text (c := ',') (t := [' ']) rfl
    ((plain_registerName hr).notMem (by decide)) ((plain_registerName hr').notMem (by decide)) h
  exact ⟨registerName_injective hr hr' hname, hrest⟩

/-- A displacement with the name of a register in brackets behind it. -/
theorem cut_displaced {z z' : Int} {r r' : Nat} (hr : r < 32) (hr' : r' < 32)
    (h : signedDecimal z ++ ("(" ++ (registerName r ++ ")")) =
      signedDecimal z' ++ ("(" ++ (registerName r' ++ ")"))) : z = z' ∧ r = r' := by
  obtain ⟨hz, hname⟩ := cut_text (c := '(') (t := []) rfl
    ((plain_signedDecimal z).notMem (by decide)) ((plain_signedDecimal z').notMem (by decide)) h
  have hname := (String.append_left_inj _).mp hname
  exact ⟨signedDecimal_injective hz, registerName_injective hr hr' hname⟩

end Names

namespace InstWord

variable {w w' : InstWord} {o : Opcode} {k : Mnemonic}

theorem rd_eq (w : InstWord) : w.rd = w.bits 7 5 := toNat_extract w 7 5

theorem rs1_eq (w : InstWord) : w.rs1 = w.bits 15 5 := toNat_extract w 15 5

theorem rs2_eq (w : InstWord) : w.rs2 = w.bits 20 5 := toNat_extract w 20 5

theorem funct3_eq (w : InstWord) : w.funct3 = w.bits 12 3 := toNat_extract w 12 3

theorem funct7_eq (w : InstWord) : w.funct7 = w.bits 25 7 := toNat_extract w 25 7

/-- The amount of a shift and the bits above it make up the immediate. -/
theorem signedI_of_amount (hlow : w.bits 20 6 = w'.bits 20 6)
    (hhigh : w.funct7 / 2 = w'.funct7 / 2) : w.signedI = w'.signedI := by
  have hbits : w.bits 20 12 = w'.bits 20 12 := by
    rw [funct7_eq, funct7_eq] at hhigh
    unfold bits at hlow hhigh ⊢
    omega
  unfold signedI
  rw [hbits]

/-- What an instruction with an immediate shows of it determines it. -/
theorem signedI_unique (he : Encoding k o w.funct3 w.funct7)
    (he' : Encoding k o w'.funct3 w'.funct7)
    (ho : o = .opImm ∨ o = .opImm32)
    (h : (if w.funct3 = 1 ∨ w.funct3 = 5 then decimal (w.immI.toNat % 64)
        else signedDecimal w.immI.toInt) =
      if w'.funct3 = 1 ∨ w'.funct3 = 5 then decimal (w'.immI.toNat % 64)
      else signedDecimal w'.immI.toInt) : w.signedI = w'.signedI := by
  have hf : w.funct3 = w'.funct3 :=
    he.minor_unique he' (by rcases ho with rfl | rfl <;> decide)
  rw [← hf] at h
  split at h
  next hs =>
    refine signedI_of_amount ?_ (he.shift_unique he' ho hs)
    rw [← immI_mod w (n := 6) (by decide), ← immI_mod w' (n := 6) (by decide)]
    exact decimal_injective h
  next => rw [← toInt_immI, ← toInt_immI, signedDecimal_injective h]

/-- The operands of an instruction determine its fields. -/
theorem operands_injective (he : Encoding k o w.funct3 w.funct7)
    (he' : Encoding k o w'.funct3 w'.funct7) (h : w.operands o = w'.operands o) :
    w.fields o.format = w'.fields o.format := by
  have hrd := And.intro (Instruction.rd_lt w) (Instruction.rd_lt w')
  have hrs1 := And.intro w.rs1_lt w'.rs1_lt
  have hrs2 := And.intro w.rs2_lt w'.rs2_lt
  cases o with
  | op | op32 =>
    simp only [operands, String.append_assoc] at h
    obtain ⟨h1, h⟩ := cut_register hrd.1 hrd.2 h
    obtain ⟨h2, h⟩ := cut_register hrs1.1 hrs1.2 h
    have h3 := registerName_injective hrs2.1 hrs2.2 h
    have h4 := he.minor_unique he' (by decide)
    have h5 := he.upper_unique he' rfl
    simp only [Opcode.format, fields, ← rd_eq, ← rs1_eq, ← rs2_eq, ← funct3_eq, ← funct7_eq, *]
  | opImm | opImm32 =>
    simp only [operands, String.append_assoc] at h
    obtain ⟨h1, h⟩ := cut_register hrd.1 hrd.2 h
    obtain ⟨h2, h⟩ := cut_register hrs1.1 hrs1.2 h
    have h3 := signedI_unique he he' (by decide) h
    have h4 := he.minor_unique he' (by decide)
    simp only [Opcode.format, fields, ← rd_eq, ← rs1_eq, ← funct3_eq, *]
  | load | jalr =>
    simp only [operands, String.append_assoc] at h
    obtain ⟨h1, h⟩ := cut_register hrd.1 hrd.2 h
    obtain ⟨h2, h3⟩ := cut_displaced hrs1.1 hrs1.2 h
    have h4 := he.minor_unique he' (by decide)
    rw [toInt_immI, toInt_immI] at h2
    simp only [Opcode.format, fields, ← rd_eq, ← rs1_eq, ← funct3_eq, *]
  | store =>
    simp only [operands, String.append_assoc] at h
    obtain ⟨h1, h⟩ := cut_register hrs2.1 hrs2.2 h
    obtain ⟨h2, h3⟩ := cut_displaced hrs1.1 hrs1.2 h
    have h4 := he.minor_unique he' (by decide)
    rw [toInt_immS, toInt_immS] at h2
    simp only [Opcode.format, fields, ← rs1_eq, ← rs2_eq, ← funct3_eq, *]
  | branch =>
    simp only [operands, String.append_assoc] at h
    obtain ⟨h1, h⟩ := cut_register hrs1.1 hrs1.2 h
    obtain ⟨h2, h⟩ := cut_register hrs2.1 hrs2.2 h
    have h3 := signedDecimal_injective h
    have h4 := he.minor_unique he' (by decide)
    rw [toInt_immB, toInt_immB] at h3
    simp only [Opcode.format, fields, ← rs1_eq, ← rs2_eq, ← funct3_eq, *]
  | jal =>
    simp only [operands, String.append_assoc] at h
    obtain ⟨h1, h⟩ := cut_register hrd.1 hrd.2 h
    have h2 := signedDecimal_injective h
    rw [toInt_immJ, toInt_immJ] at h2
    simp only [Opcode.format, fields, ← rd_eq, *]
  | lui | auipc =>
    simp only [operands, String.append_assoc] at h
    obtain ⟨h1, h⟩ := cut_register hrd.1 hrd.2 h
    have h2 := hex_injective h
    have h3 : w.signedU = w'.signedU := by
      rw [toNat_extract, toNat_extract] at h2
      unfold signedU
      rw [h2]
    simp only [Opcode.format, fields, ← rd_eq, h1, h3]

/-- A word is known by its fields and its opcode. -/
theorem eq_of_fields {f : Format} (hop : w.opcode = w'.opcode) (hf : w.fields f = w'.fields f) :
    w = w' := by
  rw [← w.encode_fields f, ← w'.encode_fields f, ← opcode_eq, ← opcode_eq, hop, hf]

/-- A word that assembly text writes as an instruction. -/
structure Written (w : InstWord) (k : Mnemonic) (o : Opcode) : Prop where
  code : Opcode.ofCode? w.opcode = some o
  encoding : Encoding k o w.funct3 w.funct7
  text : w.assembly = k.name ++ (" " ++ w.operands o)

theorem written_of_legal (hl : w.flags.legal = true) (hh : w ≠ halt) (hn : w ≠ nop) :
    ∃ k o, w.Written k o := by
  obtain ⟨o, hc, ha⟩ := ofClass_of_legal hl hh hn
  obtain ⟨k, he⟩ := (Encoding.accepts_iff (w.extractLsb' 12 3).isLt).mp ha
  refine ⟨k, o, hc.code, he, ?_⟩
  have hm : w.mnemonic? = some k.name := by
    unfold mnemonic?
    rw [hc.code]
    exact he.name_eq
  rw [assembly, if_neg hh, if_neg hn, hc.code, hm, ← String.append_assoc]

/-- A word with a mnemonic is an instruction. -/
theorem legal_of_mnemonic {name : String} (h : w.mnemonic? = some name) :
    w.flags.legal = true ∧ w ≠ halt := by
  have hh : w ≠ halt := by
    rintro rfl
    cases h
  refine ⟨?_, hh⟩
  by_cases hn : w = nop
  · rw [hn]
    rfl
  · unfold mnemonic? at h
    split at h
    next o ho =>
      have hc := class_eq_some_iff.mpr ⟨ho, Opcode.accepts_of_mnemonic h⟩
      exact (legal_iff hh hn).mpr ⟨o, hc⟩
    next => cases h

theorem legal_iff_mnemonic : w.mnemonic?.isSome = true ↔ w.flags.legal = true ∧ w ≠ halt := by
  constructor
  · intro h
    obtain ⟨name, hname⟩ := Option.isSome_iff_exists.mp h
    exact legal_of_mnemonic hname
  · rintro ⟨hl, hh⟩
    by_cases hn : w = nop
    · rw [hn]
      rfl
    · obtain ⟨k, o, hw⟩ := written_of_legal hl hh hn
      unfold mnemonic?
      rw [hw.code]
      exact Option.isSome_iff_exists.mpr ⟨_, hw.encoding.name_eq⟩

theorem assembly_of_illegal (hl : w.flags.legal = false) : w.assembly = "ILLEGAL" := by
  have hh : w ≠ halt := by
    rintro rfl
    cases hl
  have hn : w ≠ nop := by
    rintro rfl
    cases hl
  have hm : w.mnemonic? = none := by
    apply Option.not_isSome_iff_eq_none.mp
    rw [legal_iff_mnemonic, hl]
    exact fun h => Bool.noConfusion h.1
  rw [assembly, if_neg hh, if_neg hn, hm]
  cases Opcode.ofCode? w.opcode <;> rfl

namespace Written

variable {k' : Mnemonic} {o' : Opcode}

theorem ne_token (hw : w.Written k o) {text : String} (ht : ' ' ∉ text.toList) :
    w.assembly ≠ text := by
  rintro rfl
  rw [hw.text] at ht
  simp [String.toList_append] at ht

/-- Two words written alike are the same word. -/
theorem unique (hw : w.Written k o) (hw' : w'.Written k' o') (h : w.assembly = w'.assembly) :
    w = w' := by
  rw [hw.text, hw'.text] at h
  obtain ⟨hk, hops⟩ := cut_text (c := ' ') (t := []) rfl (k.plain_name.notMem (by decide))
    (k'.plain_name.notMem (by decide)) h
  obtain rfl := Mnemonic.name_injective hk
  obtain rfl := hw.encoding.class_unique hw'.encoding
  have hcode := Opcode.ofCode?_eq_some_iff.mp hw.code
  have hcode' := Opcode.ofCode?_eq_some_iff.mp hw'.code
  exact eq_of_fields (hcode.trans hcode'.symm) (operands_injective hw.encoding hw'.encoding hops)

end Written

theorem assembly_eq_illegal_iff : w.assembly = "ILLEGAL" ↔ w.flags.legal = false := by
  refine ⟨fun h => ?_, assembly_of_illegal⟩
  by_contra hl
  rw [Bool.not_eq_false] at hl
  by_cases hh : w = halt
  · rw [hh] at h
    exact absurd h (by decide)
  by_cases hn : w = nop
  · rw [hn] at h
    exact absurd h (by decide)
  obtain ⟨k, o, hw⟩ := written_of_legal hl hh hn
  exact hw.ne_token (by decide) h

/-- Legal words with the same text are the same word. -/
theorem assembly_injective (hl : w.flags.legal = true) (hl' : w'.flags.legal = true)
    (h : w.assembly = w'.assembly) : w = w' := by
  have hform {v : InstWord} (hv : v.flags.legal = true) :
      v = halt ∨ v = nop ∨ ∃ k o, v.Written k o := by
    by_cases hh : v = halt
    · exact .inl hh
    by_cases hn : v = nop
    · exact .inr (.inl hn)
    · exact .inr (.inr (written_of_legal hv hh hn))
  rcases hform hl with rfl | rfl | ⟨k, o, hw⟩ <;>
    rcases hform hl' with rfl | rfl | ⟨k', o', hw'⟩
  · rfl
  · exact absurd h (by decide)
  · exact absurd h.symm (hw'.ne_token (by decide))
  · exact absurd h (by decide)
  · rfl
  · exact absurd h.symm (hw'.ne_token (by decide))
  · exact absurd h (hw.ne_token (by decide))
  · exact absurd h (hw.ne_token (by decide))
  · exact hw.unique hw' h

end InstWord

end FiveStage
