import FiveStage.Instruction.Decode

/-! # Flags of decoded words

The stages act on flags alone, so what has to be known about a decoded word is which flags occur
together. Everything here is read off the table of the classes: `flags_eq` lists the flags a word
can have, and each of the other facts is a case of it. -/

namespace FiveStage

theorem Opcode.legal_flags (o : Opcode) : o.flags.legal = true := by cases o <;> rfl

namespace InstWord

/-- A word has the flags of the halt word, of the no-op or of its class, or none at all. -/
theorem flags_eq (w : InstWord) :
    w.flags = { legal := true, halt := true } ∨ w.flags = { legal := true, nop := true } ∨
      (∃ o, Opcode.ofCode? w.opcode = some o ∧ w.flags = o.flags) ∨ w.flags = {} := by
  unfold flags class?
  split
  · exact .inl rfl
  split
  · exact .inr (.inl rfl)
  cases hc : Opcode.ofCode? w.opcode with
  | none => exact .inr (.inr (.inr rfl))
  | some o =>
    cases ha : o.accepts w.funct3 w.funct7 with
    | true => exact .inr (.inr (.inl ⟨o, rfl, by simp [ha]⟩))
    | false => exact .inr (.inr (.inr (by simp [ha])))

/-- A property of flags that the halt word, the no-op, every class and an illegal word have is one
of every word. -/
theorem flags_induction {P : Flags → Prop} (w : InstWord)
    (hhalt : P { legal := true, halt := true }) (hnop : P { legal := true, nop := true })
    (hclass : ∀ o : Opcode, P o.flags) (hillegal : P {}) : P w.flags := by
  rcases flags_eq w with h | h | ⟨o, -, h⟩ | h <;> rw [h]
  · exact hhalt
  · exact hnop
  · exact hclass o
  · exact hillegal

theorem flags_illegal {w : InstWord} (h : w.flags.legal = false) : w.flags = {} := by
  rcases flags_eq w with e | e | ⟨o, -, e⟩ | e
  · simp [e] at h
  · simp [e] at h
  · simp [e, o.legal_flags] at h
  · exact e

theorem flags_halt {w : InstWord} (h : w.flags.halt = true) :
    w.flags = { legal := true, halt := true } := by
  rcases flags_eq w with e | e | ⟨o, -, e⟩ | e
  · exact e
  · simp [e] at h
  · rw [e] at h; cases o <;> simp [Opcode.flags] at h
  · simp [e] at h

/-- A word that is no instruction, or the halt word, asks for nothing on its way. -/
theorem flags_of_inert {w : InstWord} (h : w.flags.legal = false ∨ w.flags.halt = true) :
    w.flags.readsMem = false ∧ w.flags.writesMem = false ∧ w.flags.arithLogic = false ∧
      w.flags.readsRs1 = false ∧ w.flags.readsRs2 = false := by
  rcases h with h | h
  · rw [flags_illegal h]; exact ⟨rfl, rfl, rfl, rfl, rfl⟩
  · rw [flags_halt h]; exact ⟨rfl, rfl, rfl, rfl, rfl⟩

theorem legal_of_readsMem (w : InstWord) : w.flags.readsMem = true → w.flags.legal = true :=
  flags_induction (P := fun f => f.readsMem = true → f.legal = true) w (by simp) (by simp)
    (fun o _ => o.legal_flags) (by simp)

theorem legal_of_writesMem (w : InstWord) : w.flags.writesMem = true → w.flags.legal = true :=
  flags_induction (P := fun f => f.writesMem = true → f.legal = true) w (by simp) (by simp)
    (fun o _ => o.legal_flags) (by simp)

/-- A store reads both its registers, writes none and has no arithmetic result. -/
theorem flags_store (w : InstWord) : w.flags.writesMem = true →
    w.flags.readsMem = false ∧ w.flags.readsRs2 = true ∧ w.flags.writesRd = false ∧
      w.flags.arithLogic = false :=
  flags_induction
    (P := fun f => f.writesMem = true →
      f.readsMem = false ∧ f.readsRs2 = true ∧ f.writesRd = false ∧ f.arithLogic = false)
    w (by simp) (by simp) (fun o => by cases o <;> simp [Opcode.flags]) (by simp)

/-- An access is an instruction, and not the halt word. -/
theorem legal_of_access {w : InstWord} (h : (w.flags.readsMem || w.flags.writesMem) = true) :
    w.flags.legal = true ∧ w.flags.halt = false := by
  refine ⟨?_, ?_⟩
  · rcases (Bool.or_eq_true _ _).mp h with h | h
    · exact w.legal_of_readsMem h
    · exact w.legal_of_writesMem h
  · apply Bool.eq_false_iff.mpr
    intro hh
    rw [flags_halt hh] at h
    cases h

/-- A legal word whose opcode is not that of the no-op has the flags of its class. -/
theorem flags_of_legal {w : InstWord} {o : Opcode} (ho : Opcode.ofCode? w.opcode = some o)
    (hn : o ≠ .opImm) (hl : w.flags.legal = true) : w.flags = o.flags := by
  have hhalt : w ≠ halt := by
    rintro rfl
    have : Opcode.ofCode? (opcode halt) = none := by decide
    rw [this] at ho; cases ho
  have hnop : w ≠ nop := by
    rintro rfl
    apply hn
    have : Opcode.ofCode? (opcode nop) = some .opImm := by decide
    exact Option.some.inj (ho.symm.trans this)
  unfold flags class? at hl ⊢
  rw [if_neg hhalt, if_neg hnop, ho] at hl ⊢
  cases ha : o.accepts w.funct3 w.funct7 with
  | true => simp [ha]
  | false => simp [ha] at hl

end InstWord

end FiveStage
