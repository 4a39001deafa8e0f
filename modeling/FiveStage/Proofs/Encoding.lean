import FiveStage.Instruction.Assembly
import FiveStage.Memory.Width
import FiveStage.Proofs.InstructionSet

/-! # Encodings

The table of the instruction set: the class, minor opcode and upper function bits that stand for
each mnemonic. It holds what the decoder accepts and nothing else (`accepts_iff`), and its names are
those that assembly text shows (`name_eq`). -/

namespace FiveStage

/-- The class and the function bits by which a word stands for an instruction. -/
inductive Encoding : Mnemonic → Opcode → Nat → Nat → Prop
  | add : Encoding .add .op 0 0x00
  | sub : Encoding .sub .op 0 0x20
  | sll : Encoding .sll .op 1 0x00
  | slt : Encoding .slt .op 2 0x00
  | sltu : Encoding .sltu .op 3 0x00
  | xor : Encoding .xor .op 4 0x00
  | srl : Encoding .srl .op 5 0x00
  | sra : Encoding .sra .op 5 0x20
  | or : Encoding .or .op 6 0x00
  | and : Encoding .and .op 7 0x00
  | addw : Encoding .addw .op32 0 0x00
  | subw : Encoding .subw .op32 0 0x20
  | sllw : Encoding .sllw .op32 1 0x00
  | srlw : Encoding .srlw .op32 5 0x00
  | sraw : Encoding .sraw .op32 5 0x20
  | addi (f7 : Nat) : Encoding .addi .opImm 0 f7
  | slli {f7 : Nat} (h : f7 / 2 = 0x00) : Encoding .slli .opImm 1 f7
  | slti (f7 : Nat) : Encoding .slti .opImm 2 f7
  | sltiu (f7 : Nat) : Encoding .sltiu .opImm 3 f7
  | xori (f7 : Nat) : Encoding .xori .opImm 4 f7
  | srli {f7 : Nat} (h : f7 / 2 = 0x00) : Encoding .srli .opImm 5 f7
  | srai {f7 : Nat} (h : f7 / 2 = 0x10) : Encoding .srai .opImm 5 f7
  | ori (f7 : Nat) : Encoding .ori .opImm 6 f7
  | andi (f7 : Nat) : Encoding .andi .opImm 7 f7
  | addiw (f7 : Nat) : Encoding .addiw .opImm32 0 f7
  | slliw : Encoding .slliw .opImm32 1 0x00
  | srliw : Encoding .srliw .opImm32 5 0x00
  | sraiw : Encoding .sraiw .opImm32 5 0x20
  | lb (f7 : Nat) : Encoding .lb .load 0 f7
  | lh (f7 : Nat) : Encoding .lh .load 1 f7
  | lw (f7 : Nat) : Encoding .lw .load 2 f7
  | ld (f7 : Nat) : Encoding .ld .load 3 f7
  | lbu (f7 : Nat) : Encoding .lbu .load 4 f7
  | lhu (f7 : Nat) : Encoding .lhu .load 5 f7
  | lwu (f7 : Nat) : Encoding .lwu .load 6 f7
  | sb (f7 : Nat) : Encoding .sb .store 0 f7
  | sh (f7 : Nat) : Encoding .sh .store 1 f7
  | sw (f7 : Nat) : Encoding .sw .store 2 f7
  | sd (f7 : Nat) : Encoding .sd .store 3 f7
  | beq (f7 : Nat) : Encoding .beq .branch 0 f7
  | bne (f7 : Nat) : Encoding .bne .branch 1 f7
  | blt (f7 : Nat) : Encoding .blt .branch 4 f7
  | bge (f7 : Nat) : Encoding .bge .branch 5 f7
  | bltu (f7 : Nat) : Encoding .bltu .branch 6 f7
  | bgeu (f7 : Nat) : Encoding .bgeu .branch 7 f7
  | jalr (f7 : Nat) : Encoding .jalr .jalr 0 f7
  | jal (f3 f7 : Nat) : Encoding .jal .jal f3 f7
  | lui (f3 f7 : Nat) : Encoding .lui .lui f3 f7
  | auipc (f3 f7 : Nat) : Encoding .auipc .auipc f3 f7

namespace Encoding

variable {k : Mnemonic} {o : Opcode} {f3 f7 : Nat}

/-- The assembly text of a word names the instruction that it encodes. -/
theorem name_eq (he : Encoding k o f3 f7) : o.mnemonic? f3 f7 = some k.name := by
  cases he with
  | slli h => exact if_pos h
  | srli h => exact if_pos h
  | srai h => simp [Opcode.mnemonic?, h, Mnemonic.name]
  | _ => rfl

section Classes

theorem lt_eight_cases {n : Nat} (h : n < 8) :
    n = 0 ∨ n = 1 ∨ n = 2 ∨ n = 3 ∨ n = 4 ∨ n = 5 ∨ n = 6 ∨ n = 7 := by omega

theorem exists_op (hf : f3 < 8) (ha : Opcode.op.accepts f3 f7 = true) :
    ∃ k, Encoding k .op f3 f7 := by
  have hplain (h : ¬ (f3 = 0 ∨ f3 = 5)) : f7 = 0x00 := by simpa [Opcode.accepts, h] using ha
  have hboth (h : f3 = 0 ∨ f3 = 5) : f7 = 0x00 ∨ f7 = 0x20 := by
    simpa [Opcode.accepts, h] using ha
  rcases lt_eight_cases hf with rfl | rfl | rfl | rfl | rfl | rfl | rfl | rfl
  · rcases hboth (by decide) with rfl | rfl
    · exact ⟨_, add⟩
    · exact ⟨_, sub⟩
  · cases hplain (by decide); exact ⟨_, sll⟩
  · cases hplain (by decide); exact ⟨_, slt⟩
  · cases hplain (by decide); exact ⟨_, sltu⟩
  · cases hplain (by decide); exact ⟨_, xor⟩
  · rcases hboth (by decide) with rfl | rfl
    · exact ⟨_, srl⟩
    · exact ⟨_, sra⟩
  · cases hplain (by decide); exact ⟨_, or⟩
  · cases hplain (by decide); exact ⟨_, and⟩

theorem exists_op32 (ha : Opcode.op32.accepts f3 f7 = true) : ∃ k, Encoding k .op32 f3 f7 := by
  have h : (f3 = 0 ∨ f3 = 5) ∧ (f7 = 0x00 ∨ f7 = 0x20) ∨ f3 = 1 ∧ f7 = 0x00 := by
    by_cases hs : f3 = 0 ∨ f3 = 5
    · exact .inl ⟨hs, by simpa [Opcode.accepts, hs] using ha⟩
    · exact .inr (by simpa [Opcode.accepts, hs] using ha)
  rcases h with ⟨rfl | rfl, rfl | rfl⟩ | ⟨rfl, rfl⟩
  · exact ⟨_, addw⟩
  · exact ⟨_, subw⟩
  · exact ⟨_, srlw⟩
  · exact ⟨_, sraw⟩
  · exact ⟨_, sllw⟩

theorem exists_opImm (hf : f3 < 8) (ha : Opcode.opImm.accepts f3 f7 = true) :
    ∃ k, Encoding k .opImm f3 f7 := by
  rcases lt_eight_cases hf with rfl | rfl | rfl | rfl | rfl | rfl | rfl | rfl
  · exact ⟨_, addi f7⟩
  · exact ⟨_, slli (by simpa [Opcode.accepts] using ha)⟩
  · exact ⟨_, slti f7⟩
  · exact ⟨_, sltiu f7⟩
  · exact ⟨_, xori f7⟩
  · have h : f7 / 2 = 0x00 ∨ f7 / 2 = 0x10 := by simpa [Opcode.accepts] using ha
    rcases h with h | h
    · exact ⟨_, srli h⟩
    · exact ⟨_, srai h⟩
  · exact ⟨_, ori f7⟩
  · exact ⟨_, andi f7⟩

theorem exists_opImm32 (ha : Opcode.opImm32.accepts f3 f7 = true) :
    ∃ k, Encoding k .opImm32 f3 f7 := by
  have h : f3 = 0 ∨ f3 = 1 ∧ f7 = 0x00 ∨ f3 = 5 ∧ (f7 = 0x00 ∨ f7 = 0x20) := by
    by_cases h0 : f3 = 0
    · exact .inl h0
    by_cases h1 : f3 = 1
    · exact .inr (.inl ⟨h1, by simpa [Opcode.accepts, h0, h1] using ha⟩)
    · exact .inr (.inr (by simpa [Opcode.accepts, h0, h1] using ha))
  rcases h with rfl | ⟨rfl, rfl⟩ | ⟨rfl, rfl | rfl⟩
  · exact ⟨_, addiw f7⟩
  · exact ⟨_, slliw⟩
  · exact ⟨_, srliw⟩
  · exact ⟨_, sraiw⟩

theorem exists_load (ha : Opcode.load.accepts f3 f7 = true) : ∃ k, Encoding k .load f3 f7 := by
  have h : f3 ≤ 6 := by simpa [Opcode.accepts] using ha
  rcases lt_eight_cases (Nat.lt_succ_of_lt (Nat.lt_succ_of_le h)) with
    rfl | rfl | rfl | rfl | rfl | rfl | rfl | rfl
  · exact ⟨_, lb f7⟩
  · exact ⟨_, lh f7⟩
  · exact ⟨_, lw f7⟩
  · exact ⟨_, ld f7⟩
  · exact ⟨_, lbu f7⟩
  · exact ⟨_, lhu f7⟩
  · exact ⟨_, lwu f7⟩
  · exact absurd h (by decide)

theorem exists_store (ha : Opcode.store.accepts f3 f7 = true) : ∃ k, Encoding k .store f3 f7 := by
  have h : f3 ≤ 3 := by simpa [Opcode.accepts] using ha
  have h : f3 = 0 ∨ f3 = 1 ∨ f3 = 2 ∨ f3 = 3 := by omega
  rcases h with rfl | rfl | rfl | rfl
  · exact ⟨_, sb f7⟩
  · exact ⟨_, sh f7⟩
  · exact ⟨_, sw f7⟩
  · exact ⟨_, sd f7⟩

theorem exists_branch (hf : f3 < 8) (ha : Opcode.branch.accepts f3 f7 = true) :
    ∃ k, Encoding k .branch f3 f7 := by
  rcases lt_eight_cases hf with rfl | rfl | rfl | rfl | rfl | rfl | rfl | rfl
  · exact ⟨_, beq f7⟩
  · exact ⟨_, bne f7⟩
  · cases ha
  · cases ha
  · exact ⟨_, blt f7⟩
  · exact ⟨_, bge f7⟩
  · exact ⟨_, bltu f7⟩
  · exact ⟨_, bgeu f7⟩

end Classes

theorem accepts (he : Encoding k o f3 f7) : o.accepts f3 f7 = true := by
  cases he with
  | slli h => exact decide_eq_true h
  | srli h => exact decide_eq_true (.inl h)
  | srai h => exact decide_eq_true (.inr h)
  | _ => rfl

/-- The legal combinations of class and function bits are those that encode an instruction. -/
theorem accepts_iff (hf : f3 < 8) : o.accepts f3 f7 = true ↔ ∃ k, Encoding k o f3 f7 := by
  refine ⟨fun ha => ?_, fun ⟨_, he⟩ => he.accepts⟩
  cases o with
  | op => exact exists_op hf ha
  | op32 => exact exists_op32 ha
  | opImm => exact exists_opImm hf ha
  | opImm32 => exact exists_opImm32 ha
  | load => exact exists_load ha
  | store => exact exists_store ha
  | branch => exact exists_branch hf ha
  | jalr =>
    have hz : f3 = 0 := by simpa [Opcode.accepts] using ha
    exact ⟨_, hz ▸ jalr f7⟩
  | jal => exact ⟨_, jal f3 f7⟩
  | lui => exact ⟨_, lui f3 f7⟩
  | auipc => exact ⟨_, auipc f3 f7⟩

/-- The minor opcode of a load says how many bytes it moves. -/
theorem loadBytes_eq (he : Encoding k o f3 f7) :
    k.loadBytes? = if o.flags.readsMem then some (Width.ofFunct3 f3).bytes else none := by
  cases he <;> rfl

theorem storeBytes_eq (he : Encoding k o f3 f7) :
    k.storeBytes? = if o.flags.writesMem then some (Width.ofFunct3 f3).bytes else none := by
  cases he <;> rfl

end Encoding

end FiveStage
