import FiveStage.Proofs.Bytes
import FiveStage.Proofs.Encoding
import FiveStage.Proofs.Forwarding
import FiveStage.Proofs.Integers

/-! # What the units compute

Class by class, the arithmetic unit, the branch unit and the address of an access are compared with
what the instruction set says about the mnemonic that a word encodes. -/

namespace FiveStage

/-- A word that the decoder takes for an instruction of a class. -/
structure InstWord.OfClass (w : InstWord) (o : Opcode) : Prop where
  code : Opcode.ofCode? w.opcode = some o
  flags : w.flags = o.flags
  immediate : w.immediate = o.format.immediate w

/-- The instruction with a given word as it leaves decode. -/
def Machine.issue (m : Machine) (w : InstWord) : Instruction :=
  Instruction.issued m.regs m.pc w m.nextId

section Results

variable {w : InstWord} {m : Machine} {o : Opcode} {k : Mnemonic}

/-- The branch unit compares as the mnemonic says. -/
theorem Encoding.taken_eq (he : Encoding k .branch w.funct3 w.funct7) :
    branchTaken w.funct3 (m.regs.read w.rs1) (m.regs.read w.rs2) = k.taken w m := by
  -- a row of the table gives the function bits as numbers
  generalize w.funct3 = f3, w.funct7 = f7 at he
  cases he with
  | beq => rfl
  | bne => rfl
  | blt => exact BitVec.slt_eq_decide
  | bge =>
    show (!BitVec.slt _ _) = decide (_ ≤ _)
    rw [BitVec.slt_eq_decide, ← decide_not]
    simp only [Int.not_lt]
  | bltu => exact BitVec.ult_eq_decide
  | bgeu =>
    show (!BitVec.ult _ _) = decide (_ ≤ _)
    rw [BitVec.ult_eq_decide, ← decide_not]
    simp only [Nat.not_lt]

namespace InstWord.OfClass

theorem class_issue (h : w.OfClass o) : (m.issue w).class? = some o := h.code

theorem op1_issue (h : w.OfClass o) (hr : o.flags.readsRs1 = true) :
    (m.issue w).op1 = m.regs.read w.rs1 := by
  rw [Machine.issue, Instruction.issued_op1, h.flags, hr, if_pos rfl]

theorem op2_issue (h : w.OfClass o) (hr : o.flags.readsRs2 = true) :
    (m.issue w).op2 = m.regs.read w.rs2 := by
  rw [Machine.issue, Instruction.issued_op2, h.flags, hr, if_pos rfl]

theorem imm_issue (h : w.OfClass o) : (m.issue w).imm = o.format.immediate w := h.immediate

/-- What the arithmetic unit does with two registers, in either width. -/
theorem compute_register (word32 : Bool) (h : w.OfClass (cond word32 .op32 .op)) :
    (m.issue w).compute =
      (ArithOp.ofFunct3 w.funct3 w.alternate).compute (m.regs.read w.rs1) (m.regs.read w.rs2)
        word32 := by
  unfold Instruction.compute
  cases word32 with
  | false => rw [h.class_issue, h.op1_issue rfl, h.op2_issue rfl]; rfl
  | true => rw [h.class_issue, h.op1_issue rfl, h.op2_issue rfl]; rfl

/-- What the arithmetic unit does with a register and an immediate, in either width. -/
theorem compute_immediate (word32 : Bool) (h : w.OfClass (cond word32 .opImm32 .opImm)) :
    (m.issue w).compute =
      (ArithOp.ofFunct3 w.funct3 (w.alternate && w.funct3 = 5)).compute (m.regs.read w.rs1) w.immI
        word32 := by
  unfold Instruction.compute
  cases word32 with
  | false => rw [h.class_issue, h.op1_issue rfl, h.imm_issue]; rfl
  | true => rw [h.class_issue, h.op1_issue rfl, h.imm_issue]; rfl

theorem result_op (h : w.OfClass .op) (he : Encoding k .op w.funct3 w.funct7) :
    k.result? w m = some (m.issue w).compute := by
  rw [h.compute_register false, w.alternate_eq]
  generalize w.funct3 = f3, w.funct7 = f7 at he
  cases he with
  | add => exact congrArg some (ArithOp.compute_add _ _).symm
  | sub => exact congrArg some (ArithOp.compute_sub _ _).symm
  | sll => exact congrArg some (ArithOp.compute_sll _ _).symm
  | slt => exact congrArg some (ArithOp.compute_slt _ _).symm
  | sltu => exact congrArg some (ArithOp.compute_sltu _ _).symm
  | xor => rfl
  | srl => exact congrArg some (ArithOp.compute_srl _ _).symm
  | sra => exact congrArg some (ArithOp.compute_sra _ _).symm
  | or => rfl
  | and => rfl

theorem result_op32 (h : w.OfClass .op32) (he : Encoding k .op32 w.funct3 w.funct7) :
    k.result? w m = some (m.issue w).compute := by
  rw [h.compute_register true, w.alternate_eq]
  generalize w.funct3 = f3, w.funct7 = f7 at he
  cases he with
  | addw => exact congrArg some (ArithOp.compute_addw _ _).symm
  | subw => exact congrArg some (ArithOp.compute_subw _ _).symm
  | sllw => exact congrArg some (ArithOp.compute_sllw _ _).symm
  | srlw => exact congrArg some (ArithOp.compute_srlw _ _).symm
  | sraw => exact congrArg some (ArithOp.compute_sraw _ _).symm

/-- Of the operations with an immediate, only the right shifts heed the bit that tells an arithmetic
shift from a logical one: it is a bit of the immediate of an addition. -/
theorem result_opImm (h : w.OfClass .opImm) (he : Encoding k .opImm w.funct3 w.funct7) :
    k.result? w m = some (m.issue w).compute := by
  have hamount : w.immI.toNat % 64 = w.bits 20 6 := w.immI_mod (n := 6) (by decide)
  rw [h.compute_immediate false, w.alternate_eq]
  generalize w.funct3 = f3, w.funct7 = f7 at he
  cases he with
  | addi =>
    rw [ArithOp.ofFunct3_immediate, ArithOp.compute_add, w.toInt_immI]
    rfl
  | slli =>
    show _ = some (ArithOp.sll.compute _ _ _)
    rw [ArithOp.compute_sll, hamount]
    rfl
  | slti =>
    show _ = some (ArithOp.slt.compute _ _ _)
    rw [ArithOp.compute_slt, w.toInt_immI]
    rfl
  | sltiu =>
    show some _ = some (ArithOp.sltu.compute _ _ _)
    rw [ArithOp.compute_sltu, ← w.toInt_immI, ← Word.toNat_eq_emod]
    simp only [Int.ofNat_lt]
  | xori => rw [w.immI_eq]; rfl
  | srli hf =>
    have hlow : decide (f7 / 2 ^ 5 % 2 = 1) = false := decide_eq_false (by omega)
    rw [hlow]
    show _ = some (ArithOp.srl.compute _ _ _)
    rw [ArithOp.compute_srl, hamount]
    rfl
  | srai hf =>
    have hhigh : decide (f7 / 2 ^ 5 % 2 = 1) = true := decide_eq_true (by omega)
    rw [hhigh]
    show _ = some (ArithOp.sra.compute _ _ _)
    rw [ArithOp.compute_sra, hamount]
    rfl
  | ori => rw [w.immI_eq]; rfl
  | andi => rw [w.immI_eq]; rfl

theorem result_opImm32 (h : w.OfClass .opImm32) (he : Encoding k .opImm32 w.funct3 w.funct7) :
    k.result? w m = some (m.issue w).compute := by
  have hamount : w.immI.toNat % 32 = w.bits 20 5 := w.immI_mod (n := 5) (by decide)
  rw [h.compute_immediate true, w.alternate_eq]
  generalize w.funct3 = f3, w.funct7 = f7 at he
  cases he with
  | addiw =>
    rw [ArithOp.ofFunct3_immediate, ArithOp.compute_addw, Word.ofLow_add_signedLow, w.toInt_immI]
    rfl
  | slliw =>
    show _ = some (ArithOp.sll.compute _ _ _)
    rw [ArithOp.compute_sllw, hamount]
    rfl
  | srliw =>
    show _ = some (ArithOp.srl.compute _ _ _)
    rw [ArithOp.compute_srlw, hamount]
    rfl
  | sraiw =>
    show _ = some (ArithOp.sra.compute _ _ _)
    rw [ArithOp.compute_sraw, hamount]
    rfl

theorem result_upper (h : w.OfClass o) (ho : o = .lui ∨ o = .auipc)
    (he : Encoding k o w.funct3 w.funct7) : k.result? w m = some (m.issue w).compute := by
  unfold Instruction.compute
  rw [h.class_issue, h.imm_issue]
  rcases ho with rfl | rfl <;> cases he
  · show some _ = some w.immU
    rw [← w.toInt_immU, BitVec.ofInt_toInt]
  · show some _ = some (m.pc + w.immU)
    rw [Word.add_eq_displaced, w.toInt_immU]

/-- Both jumps leave the address behind them. -/
theorem result_jump (h : w.OfClass o) (ho : o = .jal ∨ o = .jalr)
    (he : Encoding k o w.funct3 w.funct7) : k.result? w m = some (m.issue w).compute := by
  unfold Instruction.compute
  rw [h.class_issue]
  generalize w.funct3 = f3 at he
  rcases ho with rfl | rfl <;> cases he
  · exact congrArg some (Word.add_four m.pc).symm
  · exact congrArg some (Word.add_four m.pc).symm

theorem address_load (h : w.OfClass .load) :
    (m.issue w).effectiveAddress = Mnemonic.loadAddress w m := by
  rw [Instruction.effectiveAddress, h.op1_issue rfl, h.imm_issue, add_eq_ofInt]
  show BitVec.ofInt 64 (_ + w.immI.toInt) = _
  rw [w.toInt_immI]
  rfl

theorem address_store (h : w.OfClass .store) :
    (m.issue w).effectiveAddress = Mnemonic.storeAddress w m := by
  rw [Instruction.effectiveAddress, h.op1_issue rfl, h.imm_issue, add_eq_ofInt]
  show BitVec.ofInt 64 (_ + w.immS.toInt) = _
  rw [w.toInt_immS]
  rfl

theorem result_load (h : w.OfClass .load) (he : Encoding k .load w.funct3 w.funct7)
    (hr : k.InRange w m) :
    k.result? w m =
      some (extendLoaded w.funct3
        (m.memory.value (m.issue w).effectiveAddress (Width.ofFunct3 w.funct3).bytes)) := by
  rw [h.address_load]
  generalize w.funct3 = f3, w.funct7 = f7 at he
  have hv {n : Nat} (hn : k.loadBytes? = some n) :
      m.memory.value (Mnemonic.loadAddress w m) n = .ofNat 64 (Mnemonic.loaded w m n) :=
    m.memory.value_eq (hr.load n hn)
  cases he with
  | lb =>
    show _ = some (((m.memory.value _ 1).setWidth 8).signExtend 64)
    rw [hv rfl, Word.signExtend_setWidth_ofNat (by decide)]
    rfl
  | lh =>
    show _ = some (((m.memory.value _ 2).setWidth 16).signExtend 64)
    rw [hv rfl, Word.signExtend_setWidth_ofNat (by decide)]
    rfl
  | lw =>
    show _ = some (((m.memory.value _ 4).setWidth 32).signExtend 64)
    rw [hv rfl, Word.signExtend_setWidth_ofNat (by decide)]
    rfl
  | ld => exact congrArg some (hv rfl).symm
  | lbu => exact congrArg some (hv rfl).symm
  | lhu => exact congrArg some (hv rfl).symm
  | lwu => exact congrArg some (hv rfl).symm

/-- An instruction that neither branches nor jumps is followed by the word behind it. -/
theorem successor_straight (h : w.OfClass o) (hb : o ≠ .branch) (hj : o ≠ .jal) (hr : o ≠ .jalr)
    (he : Encoding k o w.funct3 w.funct7) : (m.issue w).successor = k.nextPc w m := by
  have hstraight : (m.issue w).successor = m.pc + 4 := by
    refine Instruction.successor_of_not_control ?_
    simp [Instruction.isControl, h.class_issue, hb, hj, hr]
  rw [hstraight, Word.add_four]
  generalize w.funct3 = f3, w.funct7 = f7 at he
  cases he <;> first | contradiction | rfl

theorem legal_issue (h : w.OfClass o) : (m.issue w).flags.legal = true := by
  show w.flags.legal = true
  rw [h.flags, o.legal_flags]

theorem successor_jal (h : w.OfClass .jal) (he : Encoding k .jal w.funct3 w.funct7) :
    (m.issue w).successor = k.nextPc w m := by
  unfold Instruction.successor
  rw [if_pos h.legal_issue, h.class_issue, h.imm_issue]
  cases he
  show m.pc + w.immJ = _
  rw [Word.add_eq_displaced, w.toInt_immJ]
  rfl

theorem successor_jalr (h : w.OfClass .jalr) (he : Encoding k .jalr w.funct3 w.funct7) :
    (m.issue w).successor = k.nextPc w m := by
  unfold Instruction.successor
  rw [if_pos h.legal_issue, h.class_issue, h.op1_issue rfl, h.imm_issue]
  generalize w.funct3 = f3 at he
  cases he
  show (m.regs.read w.rs1 + w.immI) &&& ~~~1 = _
  rw [add_eq_ofInt, w.toInt_immI, Word.clear_lowest]
  rfl

theorem successor_branch (h : w.OfClass .branch) (he : Encoding k .branch w.funct3 w.funct7) :
    (m.issue w).successor = k.nextPc w m := by
  have htarget : m.pc + w.immB = .ofInt 64 (m.pc.toNat + w.signedB) := by
    rw [Word.add_eq_displaced, w.toInt_immB]
  have hnext : k.nextPc w m =
      if k.taken w m then .ofInt 64 (m.pc.toNat + w.signedB) else .ofNat 64 (m.pc.toNat + 4) := by
    generalize w.funct3 = f3, w.funct7 = f7 at he
    cases he <;> rfl
  unfold Instruction.successor
  rw [if_pos h.legal_issue, h.class_issue, h.op1_issue rfl, h.op2_issue rfl, h.imm_issue, hnext,
    ← he.taken_eq, ← htarget, ← Word.add_four]
  rfl

theorem successor_eq (h : w.OfClass o) (he : Encoding k o w.funct3 w.funct7) :
    (m.issue w).successor = k.nextPc w m := by
  by_cases hb : o = .branch
  · subst hb; exact h.successor_branch he
  by_cases hj : o = .jal
  · subst hj; exact h.successor_jal he
  by_cases hr : o = .jalr
  · subst hr; exact h.successor_jalr he
  · exact h.successor_straight hb hj hr he

/-- Every class but the loads, stores and branches takes its result from the arithmetic unit. -/
theorem result_arith (h : w.OfClass o) (ho : o.flags.arithLogic = true)
    (he : Encoding k o w.funct3 w.funct7) : k.result? w m = some (m.issue w).compute := by
  cases o with
  | op => exact h.result_op he
  | op32 => exact h.result_op32 he
  | opImm => exact h.result_opImm he
  | opImm32 => exact h.result_opImm32 he
  | lui => exact h.result_upper (.inl rfl) he
  | auipc => exact h.result_upper (.inr rfl) he
  | jal => exact h.result_jump (.inl rfl) he
  | jalr => exact h.result_jump (.inr rfl) he
  | load => cases ho
  | store => cases ho
  | branch => cases ho

end InstWord.OfClass

end Results

end FiveStage
