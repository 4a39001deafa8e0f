import FiveStage.Pipeline.Hazard
import FiveStage.Pipeline.Stage
import FiveStage.Proofs.Flags
import FiveStage.Proofs.Registers

/-! # The record of an instruction

An instruction collects its values on its way: it is issued with the operands of a register file,
prepared with its successor, its result and the address of its access, and has accessed a memory.
The functional step does all of this at once, the pipeline stage by stage. The lemmas say that the
steps of the functional model and the stages fill in the same record. -/

namespace FiveStage

/-- The word at an address; zero, which is no instruction, outside the memory. -/
def Memory.instructionAt (m : Memory) (pc : Word) : InstWord :=
  if m.Contains pc 4 then (m.value pc 4).setWidth 32 else 0

namespace Instruction

/-- The instruction decoded from a word, with the operands a register file holds. -/
def issued (regs : Registers) (pc : Word) (w : InstWord) (id : Nat) : Instruction :=
  { decode pc w with id }.withOperands regs

/-- The instruction as it reaches memory: successor, result and address are filled in. -/
def prepared (regs : Registers) (pc : Word) (w : InstWord) (id : Nat) : Instruction :=
  (issued regs pc w id).withResults.withAddress

/-- The instruction after its access of a memory, if it makes one. -/
def accessed (i : Instruction) (m : Memory) : Instruction :=
  if i.flags.readsMem || i.flags.writesMem then
    if i.Fits m then { i with memResult := i.loaded m } else { i with memFault := true }
  else i

theorem withAddress_eq (i : Instruction) :
    i.withAddress =
      { i with
        memAddress :=
          if i.flags.readsMem || i.flags.writesMem then i.effectiveAddress else i.memAddress } := by
  unfold withAddress; split <;> rfl

theorem accessed_eq (i : Instruction) (m : Memory) :
    i.accessed m =
      { i with
        memResult :=
          if (i.flags.readsMem || i.flags.writesMem) ∧ i.Fits m then i.loaded m else i.memResult
        memFault :=
          if (i.flags.readsMem || i.flags.writesMem) ∧ ¬ i.Fits m then true else i.memFault } := by
  unfold accessed
  split
  · split <;> simp [*]
  · simp [*]

/-- Only a load or store can fail to access memory. -/
theorem accesses_of_memFault {i : Instruction} {m : Memory} (hi : i.memFault = false)
    (h : (i.accessed m).memFault = true) : (i.flags.readsMem || i.flags.writesMem) = true := by
  unfold accessed at h
  split at h
  next ha => exact ha
  next => rw [hi] at h; cases h

/-- An access that has not failed was in range. -/
theorem fits_of_accessed {i : Instruction} {m : Memory} (h : (i.accessed m).memFault = false) :
    (i.accessed m).Fits m := by
  rw [accessed_eq] at h ⊢
  intro hacc
  have ha : (i.flags.readsMem || i.flags.writesMem) = true := (Bool.or_eq_true _ _).mpr hacc
  by_cases hfit : i.Fits m
  · exact hfit hacc
  · have h : (if _ ∧ ¬ i.Fits m then true else i.memFault) = false := h
    rw [if_pos ⟨ha, hfit⟩] at h
    cases h

section Fields

variable (regs : Registers) (pc : Word) (w : InstWord) (id : Nat)

@[simp] theorem issued_pc : (issued regs pc w id).pc = pc := rfl
@[simp] theorem issued_raw : (issued regs pc w id).raw = w := rfl
@[simp] theorem issued_id : (issued regs pc w id).id = id := rfl
@[simp] theorem issued_flags : (issued regs pc w id).flags = w.flags := rfl
@[simp] theorem issued_status : (issued regs pc w id).status = .normal := rfl
@[simp] theorem issued_class : (issued regs pc w id).class? = Opcode.ofCode? w.opcode := rfl
@[simp] theorem issued_rs1 : (issued regs pc w id).rs1 = w.rs1 := rfl
@[simp] theorem issued_rs2 : (issued regs pc w id).rs2 = w.rs2 := rfl

@[simp] theorem prepared_pc : (prepared regs pc w id).pc = pc := by
  rw [prepared, withAddress_eq]; rfl
@[simp] theorem prepared_raw : (prepared regs pc w id).raw = w := by
  rw [prepared, withAddress_eq]; rfl
@[simp] theorem prepared_id : (prepared regs pc w id).id = id := by
  rw [prepared, withAddress_eq]; rfl
@[simp] theorem prepared_flags : (prepared regs pc w id).flags = w.flags := by
  rw [prepared, withAddress_eq]; rfl
@[simp] theorem prepared_status : (prepared regs pc w id).status = .normal := by
  rw [prepared, withAddress_eq]; rfl
@[simp] theorem prepared_rd : (prepared regs pc w id).rd = w.rd := by
  rw [prepared, withAddress_eq]; rfl
@[simp] theorem prepared_memFault : (prepared regs pc w id).memFault = false := by
  rw [prepared, withAddress_eq]; rfl
theorem prepared_nextPc :
    (prepared regs pc w id).nextPc = (issued regs pc w id).successor := by
  rw [prepared, withAddress_eq]; rfl

variable (i : Instruction) (m : Memory)

@[simp] theorem accessed_pc : (i.accessed m).pc = i.pc := by rw [accessed_eq]
@[simp] theorem accessed_raw : (i.accessed m).raw = i.raw := by rw [accessed_eq]
@[simp] theorem accessed_id : (i.accessed m).id = i.id := by rw [accessed_eq]
@[simp] theorem accessed_flags : (i.accessed m).flags = i.flags := by rw [accessed_eq]
@[simp] theorem accessed_status : (i.accessed m).status = i.status := by rw [accessed_eq]
@[simp] theorem accessed_rd : (i.accessed m).rd = i.rd := by rw [accessed_eq]
@[simp] theorem accessed_nextPc : (i.accessed m).nextPc = i.nextPc := by rw [accessed_eq]

end Fields

theorem rd_lt (w : InstWord) : w.rd < registerCount := by
  unfold InstWord.rd registerCount; exact (w.extractLsb' 7 5).isLt

theorem fallThrough_eq (i : Instruction) : i.fallThrough = i.pc + 4 := rfl

/-- An instruction that is no branch or jump is followed by the next word in memory. -/
theorem successor_of_not_control {i : Instruction} (h : i.isControl = false) :
    i.successor = i.fallThrough := by
  unfold isControl at h
  unfold successor
  split
  next hl =>
    simp only [hl, Bool.true_and, Bool.or_eq_false_iff, decide_eq_false_iff_not] at h
    split <;> simp_all
  next => rfl

/-- Filling in the result and the address of an issued instruction prepares it. -/
theorem executed_issued (regs : Registers) (pc : Word) (w : InstWord) (id : Nat) :
    { issued regs pc w id with nextPc := (issued regs pc w id).successor }.executed =
      prepared regs pc w id := by
  cases hl : w.flags.legal with
  | true =>
    have hx : ({ issued regs pc w id with nextPc := (issued regs pc w id).successor }.isLive &&
        w.flags.legal) = true := by simp [isLive, hl]
    unfold executed
    exact (if_pos hx).trans rfl
  | false =>
    have hf := InstWord.flags_illegal hl
    have hx : ¬ ({ issued regs pc w id with nextPc := (issued regs pc w id).successor }.isLive &&
        w.flags.legal) = true := by simp [hl]
    unfold executed
    refine (if_neg hx).trans ?_
    rw [prepared, withAddress_eq]
    simp [withResults, hf]

/-- The memory stage performs the access of a decoded instruction. -/
theorem memoryStage_eq (m : Machine) {i : Instruction} {w : InstWord} (hl : i.isLive = true)
    (hf : i.flags = w.flags) : (m.memoryStage i).1 = i.accessed m.memory := by
  have ha : Machine.accessesMemory i = (i.flags.readsMem || i.flags.writesMem) := by
    have hr := w.legal_of_readsMem
    have hw := w.legal_of_writesMem
    unfold Machine.accessesMemory isLoad isStore
    rw [hl, hf]
    cases h1 : w.flags.readsMem <;> cases h2 : w.flags.writesMem <;> simp_all
  unfold Machine.memoryStage accessed
  rw [ha]
  split
  · split <;> rfl
  · rfl

end Instruction

end FiveStage
