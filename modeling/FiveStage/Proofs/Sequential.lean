import FiveStage.Proofs.Forwarding
import FiveStage.Pipeline.Basic

/-! # Program order

A `Sequential` machine runs the instructions of a pipeline one after the other. It has no caches and
no clock; what it keeps of the pipeline is that the word of an instruction may be older than the
memory the instruction finds, since up to two instructions are in front of a word when it is fetched
(`Sees`), and that the first instruction that fails leads to the exception handler (`next`). -/

namespace FiveStage

structure Sequential where
  regs : Registers
  pc : Word
  memory : Memory
  /-- the memory that the last instruction found -/
  recent : Memory
  /-- the memory that the last instruction but one found -/
  older : Memory
  /-- how many instructions have been run -/
  retired : Nat := 0
  trapped : Bool := false
  halted : Bool := false

namespace Sequential

/-- The machine before its first instruction. -/
def start (m : Machine) : Sequential :=
  { regs := m.regs, pc := m.pc, memory := m.memory, recent := m.memory, older := m.memory }

/-- The record of the instruction with a given word and number, run in this state. -/
def record (s : Sequential) (w : InstWord) (id : Nat) : Instruction :=
  (Instruction.prepared s.regs s.pc w id).accessed s.memory

/-- The state after an instruction. One that fails changes neither registers nor memory and is
followed by the exception handler, whose words are fetched when all older work is done. -/
def next (s : Sequential) (i : Instruction) : Sequential :=
  match i.stepEnd with
  | .completed =>
    { s with
      regs := i.commit s.regs
      pc := i.nextPc
      memory := i.stored s.memory
      recent := s.memory
      older := s.recent
      retired := s.retired + 1 }
  | .halted =>
    { s with recent := s.memory, older := s.recent, retired := s.retired + 1, halted := true }
  | .failed =>
    { s with
      pc := exceptionHandler
      recent := s.memory
      older := s.memory
      retired := s.retired + 1
      trapped := true }

/-- A word that fetch may bring in from an address for the next instruction. -/
def Sees (s : Sequential) (pc : Word) (w : InstWord) : Prop :=
  w = s.recent.instructionAt pc ∨ w = s.older.instructionAt pc

/-- An instruction that can come next. Numbers are only kept track of up to the first exception,
behind which a decoded instruction may have been thrown away. -/
structure Accepts (s : Sequential) (i : Instruction) : Prop where
  running : s.halted = false
  sees : s.Sees s.pc i.raw
  numbered : s.trapped = false → i.id = s.retired

/-- The state after the instruction in a slot, if there is one. -/
def pass (s : Sequential) (i : Instruction) : Sequential :=
  if i.isLive then s.next (s.record i.raw i.id) else s

/-- The state after the instruction in a slot as fetch and decode take it, before the access of the
instruction is known to fail. -/
def foresee (s : Sequential) (i : Instruction) : Sequential :=
  if i.isLive then s.next { s.record i.raw i.id with memFault := false } else s

/-- The runs from a state, with the records of their instructions. -/
inductive Run (s : Sequential) : List Instruction → Sequential → Prop
  | nil : Run s [] s
  | snoc {is : List Instruction} {t : Sequential} {i : Instruction} :
      Run s is t → t.Accepts i → i = t.record i.raw i.id → Run s (is ++ [i]) (t.next i)

section Record

variable (s : Sequential) (w : InstWord) (id : Nat)

@[simp] theorem record_pc : (s.record w id).pc = s.pc := by simp [record]
@[simp] theorem record_raw : (s.record w id).raw = w := by simp [record]
@[simp] theorem record_id : (s.record w id).id = id := by simp [record]
@[simp] theorem record_flags : (s.record w id).flags = w.flags := by simp [record]
@[simp] theorem record_status : (s.record w id).status = .normal := by simp [record]
@[simp] theorem record_rd : (s.record w id).rd = w.rd := by simp [record]
theorem record_nextPc :
    (s.record w id).nextPc = (Instruction.issued s.regs s.pc w id).successor := by
  simp [record, Instruction.prepared_nextPc]

theorem record_isLive : (s.record w id).isLive = true := by simp [Instruction.isLive]

theorem record_rd_lt : (s.record w id).rd < registerCount := by
  rw [record_rd]; exact Instruction.rd_lt w

end Record

theorem stepEnd_failed {i : Instruction} (h : (!i.flags.legal || i.memFault) = true) :
    i.stepEnd = .failed := if_pos h

theorem stepEnd_halted {i : Instruction} (h : i.flags.legal = true) (hf : i.memFault = false)
    (hh : i.flags.halt = true) : i.stepEnd = .halted := by simp [Instruction.stepEnd, h, hf, hh]

theorem stepEnd_completed {i : Instruction} (h : i.flags.legal = true) (hf : i.memFault = false)
    (hh : i.flags.halt = false) : i.stepEnd = .completed := by
  simp [Instruction.stepEnd, h, hf, hh]

theorem next_of_completed (s : Sequential) {i : Instruction} (h : i.stepEnd = .completed) :
    s.next i =
      { s with
        regs := i.commit s.regs
        pc := i.nextPc
        memory := i.stored s.memory
        recent := s.memory
        older := s.recent
        retired := s.retired + 1 } := by simp [next, h]

theorem next_of_halted (s : Sequential) {i : Instruction} (h : i.stepEnd = .halted) :
    s.next i =
      { s with
        recent := s.memory
        older := s.recent
        retired := s.retired + 1
        halted := true } := by
  simp [next, h]

theorem next_of_failed (s : Sequential) {i : Instruction} (h : i.stepEnd = .failed) :
    s.next i =
      { s with
        pc := exceptionHandler
        recent := s.memory
        older := s.memory
        retired := s.retired + 1
        trapped := true } := by simp [next, h]

/-- Whatever becomes of an instruction, the registers after it are those it commits to. -/
theorem regs_next (s : Sequential) {i : Instruction} {w : InstWord} (hw : i.flags = w.flags) :
    (s.next i).regs = i.commit s.regs := by
  unfold next
  cases h : i.stepEnd with
  | completed => rfl
  | halted =>
    have hh : w.flags.halt = true := by
      rw [Instruction.stepEnd] at h
      split at h
      · cases h
      · split at h
        next hh => rw [← hw]; exact hh
        next => cases h
    have : i.dest = none := by simp [Instruction.dest, hw, InstWord.flags_halt hh]
    rw [Instruction.commit_of_dest_none this]
  | failed =>
    have hf : i.flags.legal = false ∨ i.memFault = true := by
      rw [Instruction.stepEnd] at h
      split at h
      next hc => simpa using hc
      next => split at h <;> cases h
    have : i.dest = none := by
      unfold Instruction.dest
      rcases hf with hf | hf <;> simp [hf]
    rw [Instruction.commit_of_dest_none this]

theorem pass_of_live (s : Sequential) {i : Instruction} (h : i.isLive = true) :
    s.pass i = s.next (s.record i.raw i.id) := if_pos h

theorem pass_of_not_live (s : Sequential) {i : Instruction} (h : i.isLive = false) :
    s.pass i = s := by simp [pass, h]

theorem foresee_of_live (s : Sequential) {i : Instruction} (h : i.isLive = true) :
    s.foresee i = s.next { s.record i.raw i.id with memFault := false } := if_pos h

theorem foresee_of_not_live (s : Sequential) {i : Instruction} (h : i.isLive = false) :
    s.foresee i = s := by simp [foresee, h]

/-- What is foreseen depends on the word of the instruction alone, not on how far it has come. -/
theorem foresee_congr (s : Sequential) {i j : Instruction} (hl : i.isLive = j.isLive)
    (hr : i.raw = j.raw) (hi : i.id = j.id) : s.foresee i = s.foresee j := by
  simp only [foresee, hl, hr, hi]

/-- An access that does not fail was foreseen. -/
theorem foresee_eq_pass (s : Sequential) {i : Instruction}
    (h : i.isLive = true → (s.record i.raw i.id).memFault = false) : s.foresee i = s.pass i := by
  unfold foresee pass
  split
  next hl =>
    have := h hl
    congr 1
    rw [← this]
  next => rfl

/-- The number of an instruction has no influence on the state after it. -/
theorem next_record_id (s : Sequential) (w : InstWord) (id id' : Nat) :
    s.next (s.record w id) = s.next (s.record w id') := by
  have h : s.record w id = { s.record w id' with id } := by
    unfold record Instruction.prepared
    rw [Instruction.withAddress_eq, Instruction.withAddress_eq, Instruction.accessed_eq,
      Instruction.accessed_eq]
    rfl
  rw [h]
  rfl

@[simp] theorem retired_next (s : Sequential) (i : Instruction) :
    (s.next i).retired = s.retired + 1 := by
  unfold next; split <;> rfl

theorem recent_next (s : Sequential) (i : Instruction) : (s.next i).recent = s.memory := by
  unfold next; split <;> rfl

theorem recent_foresee (s : Sequential) (i : Instruction) :
    (s.foresee i).recent = if i.isLive then s.memory else s.recent := by
  unfold foresee
  split
  · exact recent_next _ _
  · rfl

/-- Behind an instruction that does not fail, a word may be as old as the memory that the
instruction before it found. -/
theorem older_foresee (s : Sequential) {i : Instruction} (hi : i.isLive = true)
    (hl : i.raw.flags.legal = true) : (s.foresee i).older = s.recent := by
  rw [foresee_of_live _ hi]
  cases hh : i.raw.flags.halt with
  | false =>
    rw [next_of_completed]
    exact stepEnd_completed (by simpa using hl) rfl (by simpa using hh)
  | true =>
    rw [next_of_halted]
    exact stepEnd_halted (by simpa using hl) rfl (by simpa using hh)

theorem pc_foresee_of_illegal (s : Sequential) {i : Instruction} (hi : i.isLive = true)
    (hl : i.raw.flags.legal = false) : (s.foresee i).pc = exceptionHandler := by
  rw [foresee_of_live _ hi, next_of_failed]
  exact stepEnd_failed (by simp [hl])

/-- Once an instruction has failed the state stays trapped. -/
theorem trapped_next (s : Sequential) (i : Instruction) :
    (s.next i).trapped = (s.trapped || !i.flags.legal || i.memFault) := by
  unfold next Instruction.stepEnd
  cases hl : i.flags.legal <;> cases hf : i.memFault <;> cases hh : i.flags.halt <;> simp

theorem trapped_foresee (s : Sequential) (i : Instruction) :
    (s.foresee i).trapped = (s.trapped || (i.isLive && !i.raw.flags.legal)) := by
  unfold foresee
  split
  next hl => simp [trapped_next, hl]
  next hl => simp [hl]

/-- The memory stage leaves the memory that the instruction leaves in program order. -/
theorem memory_memoryStage (s : Sequential) {m : Machine} (hm : m.memory = s.memory) (w : InstWord)
    (id : Nat) :
    (m.memoryStage (Instruction.prepared s.regs s.pc w id)).2.memory =
      (s.next (s.record w id)).memory := by
  have ha : Machine.accessesMemory (Instruction.prepared s.regs s.pc w id) =
      (w.flags.readsMem || w.flags.writesMem) := by
    have hr := w.legal_of_readsMem
    have hw := w.legal_of_writesMem
    unfold Machine.accessesMemory Instruction.isLoad Instruction.isStore
    cases h1 : w.flags.readsMem <;> cases h2 : w.flags.writesMem <;>
      simp_all [Instruction.isLive]
  have hs : ∀ mem,
      (s.record w id).stored mem = (Instruction.prepared s.regs s.pc w id).stored mem := by
    intro mem
    unfold record
    rw [Instruction.accessed_eq]
    rfl
  unfold Machine.memoryStage
  rw [ha, hm]
  cases hacc : (w.flags.readsMem || w.flags.writesMem) with
  | false =>
    have hst : (s.record w id).stored s.memory = s.memory := by
      unfold Instruction.stored
      simp only [Bool.or_eq_false_iff] at hacc
      simp [hacc.2]
    simp only [Bool.false_eq_true, if_false, hm]
    unfold next
    split <;> simp [hst]
  | true =>
    have hleg : w.flags.legal = true := by
      rcases Bool.or_eq_true _ _ ▸ hacc with h | h
      · exact w.legal_of_readsMem h
      · exact w.legal_of_writesMem h
    have hhalt : w.flags.halt = false := by
      cases hh : w.flags.halt with
      | false => rfl
      | true => simp [InstWord.flags_halt hh] at hacc
    simp only [if_true]
    by_cases hfit : (Instruction.prepared s.regs s.pc w id).Fits s.memory
    · have hf : (s.record w id).memFault = false := by
        unfold record
        rw [Instruction.accessed_eq]
        simp [hfit]
      have he := stepEnd_completed (i := s.record w id) (by simpa using hleg) hf
        (by simpa using hhalt)
      simp only [hfit, if_true, next, he, hs]
    · have hf : (s.record w id).memFault = true := by
        unfold record
        rw [Instruction.accessed_eq]
        simp [hfit, hacc]
      have he := stepEnd_failed (i := s.record w id) (by simp [hf])
      simp only [hfit, if_false, next, he, hm]

/-- What is preserved by accepted instructions holds at the end of a run. -/
theorem Run.preserves {s t : Sequential} {is : List Instruction} (h : s.Run is t)
    {P : Sequential → Prop} (h₀ : P s)
    (step : ∀ t i, P t → t.Accepts i → P (t.next (t.record i.raw i.id))) : P t := by
  induction h with
  | nil => exact h₀
  | snoc _ hacc hrec ih =>
    have := step _ _ ih hacc
    rwa [← hrec] at this

theorem Run.retired_eq {s t : Sequential} {is : List Instruction} (h : s.Run is t) :
    t.retired = s.retired + is.length := by
  induction h with
  | nil => rfl
  | snoc _ _ _ ih => rw [Sequential.retired_next, ih, List.length_append]; rfl

end Sequential

end FiveStage
