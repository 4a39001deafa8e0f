import FiveStage.Proofs.Memory
import FiveStage.Proofs.Sequential

/-! # Functional execution in program order

The functional model steps a machine by one instruction. A sequential state follows the machine when
it is where the machine is after a number of steps, and the words that the pipeline may fetch are
those that the steps execute as long as no store overwrites one of the next two instructions
(`Follows.accepts`). -/

namespace FiveStage

open Instruction

namespace Instruction

theorem issued_of_inert (regs : Registers) (pc : Word) {w : InstWord} (id : Nat)
    (h : w.flags.legal = false ∨ w.flags.halt = true) :
    issued regs pc w id = { decode pc w with id } := by
  obtain ⟨-, -, -, h4, h5⟩ := InstWord.flags_of_inert h
  have e1 : (issued regs pc w id).op1 = 0 := by simp [h4]
  have e2 : (issued regs pc w id).op2 = 0 := by simp [h5]
  calc issued regs pc w id
      = { decode pc w with
          id, op1 := (issued regs pc w id).op1, op2 := (issued regs pc w id).op2 } := rfl
    _ = { decode pc w with id } := by rw [e1, e2]; rfl

/-- A word that is no instruction, or the halt word, is not changed on its way. -/
theorem accessed_prepared_of_inert (regs : Registers) (pc : Word) (w : InstWord)
    (id : Nat) (m : Memory) (h : w.flags.legal = false ∨ w.flags.halt = true) :
    (prepared regs pc w id).accessed m = { decode pc w with id } := by
  obtain ⟨h1, h2, h3, -, -⟩ := InstWord.flags_of_inert h
  have hprepared : prepared regs pc w id = issued regs pc w id := by
    have e : prepared regs pc w id =
        { issued regs pc w id with
          nextPc := (issued regs pc w id).successor
          arithResult := if w.flags.arithLogic then (issued regs pc w id).compute else 0
          memAddress :=
            if w.flags.readsMem || w.flags.writesMem then
              (issued regs pc w id).withResults.effectiveAddress else 0 } := by
      rw [prepared, withAddress_eq]
      rfl
    rw [e, h1, h2, h3, successor_of_not_control (not_control_of_inert regs pc id h)]
    rfl
  unfold accessed
  rw [if_neg (by simp [h1, h2]), hprepared, issued_of_inert regs pc id h]

end Instruction

namespace Machine

/-- The machine after `n` steps. -/
def after (m : Machine) : Nat → Machine
  | 0 => m
  | n + 1 => (m.after n).step.2

/-- The record that the step behind `n` others returns. -/
def executed (m : Machine) (n : Nat) : Instruction := (m.after n).step.1

/-- The functional run goes on behind its first `n` instructions. -/
def Reaches (m : Machine) (n : Nat) : Prop := ∀ k, k < n → (m.executed k).stepEnd = .completed

instance (m : Machine) (n : Nat) : Decidable (m.Reaches n) :=
  inferInstanceAs (Decidable (∀ k, k < n → _))

/-- The functional run meets no illegal word and no memory fault. -/
def FaultFree (m : Machine) : Prop := ∀ n, (m.runSteps n).1 ≠ .exception

/-- No executed store overwrites a byte of one of the two instructions executed right after it. -/
def FetchSafe (m : Machine) : Prop :=
  ∀ n k, k < 2 → m.Reaches (n + k + 1) → ¬ (m.executed n).Overwrites (m.executed (n + k + 1)).pc

theorem Reaches.mono {m : Machine} {n k : Nat} (h : m.Reaches n) (hk : k ≤ n) : m.Reaches k :=
  fun j hj => h j (Nat.lt_of_lt_of_le hj hk)

theorem Reaches.succ {m : Machine} {n : Nat} (h : m.Reaches n)
    (hn : (m.executed n).stepEnd = .completed) : m.Reaches (n + 1) := by
  intro k hk
  rcases Nat.lt_succ_iff_lt_or_eq.mp hk with hk | rfl
  · exact h k hk
  · exact hn

/-- The instruction at the program counter as it reaches memory. -/
theorem step_of_legal {m : Machine} (hl : m.current.flags.legal = true)
    (hh : m.current.flags.halt = false) :
    m.step = m.counted.complete
      (Instruction.prepared m.regs m.pc (m.memory.instructionAt m.pc) m.nextId) := by
  unfold step
  simp only [hl, hh, Bool.not_true, Bool.false_eq_true, if_false]
  rfl

theorem step_of_illegal {m : Machine} (hl : m.current.flags.legal = false) :
    m.step = (m.current, m.counted.countException) := by
  unfold step
  simp only [hl, Bool.not_false, if_true]

theorem step_of_halt {m : Machine} (hl : m.current.flags.legal = true)
    (hh : m.current.flags.halt = true) : m.step = (m.current, m.counted) := by
  unfold step
  simp only [hl, hh, Bool.not_true, Bool.false_eq_true, if_false, if_true]

theorem complete_fst (m : Machine) (i : Instruction) : (m.complete i).1 = i.accessed m.memory := by
  unfold complete accessed
  (repeat' split) <;> rfl

/-- An access that does not fail completes. -/
theorem complete_snd (m : Machine) {i : Instruction}
    (h : (i.accessed m.memory).memFault = false) :
    (m.complete i).2 =
      { m with
        regs := (i.accessed m.memory).commit m.regs
        pc := (i.accessed m.memory).nextPc
        memory := (i.accessed m.memory).stored m.memory } ∧
      (i.accessed m.memory).Fits m.memory := by
  unfold accessed at h ⊢
  unfold complete
  cases ha : (i.flags.readsMem || i.flags.writesMem) with
  | true =>
    rw [ha, if_pos rfl] at h
    by_cases hfit : i.Fits m.memory
    · simp only [if_true, if_pos hfit]
      exact ⟨trivial, hfit⟩
    · rw [if_neg hfit] at h
      cases h
  | false =>
    simp only [Bool.or_eq_false_iff] at ha
    have hs : i.stored m.memory = m.memory := by simp [stored, ha.2]
    simp only [Bool.false_eq_true, if_false, hs]
    exact ⟨trivial, fun hc => absurd hc (by simp [ha])⟩

/-- An access that fails changes nothing. -/
theorem complete_snd_of_fault (m : Machine) {i : Instruction} (hi : i.memFault = false)
    (h : (i.accessed m.memory).memFault = true) : (m.complete i).2 = m.countException := by
  unfold accessed at h
  unfold complete
  cases ha : (i.flags.readsMem || i.flags.writesMem) with
  | true =>
    rw [ha, if_pos rfl] at h
    by_cases hfit : i.Fits m.memory
    · rw [if_pos hfit] at h
      exact absurd (hi.symm.trans h) (by simp)
    · simp only [if_true, if_neg hfit]
  | false =>
    rw [ha, if_neg (by simp)] at h
    exact absurd (hi.symm.trans h) (by simp)

/-- What a step returns is the record of the instruction at the program counter. -/
theorem step_fst (m : Machine) :
    m.step.1 = (Instruction.prepared m.regs m.pc (m.memory.instructionAt m.pc) m.nextId).accessed
      m.memory := by
  have hflags : m.current.flags = (m.memory.instructionAt m.pc).flags := rfl
  cases hl : m.current.flags.legal with
  | false =>
    rw [step_of_illegal hl]
    exact (accessed_prepared_of_inert _ _ _ _ _ (.inl (hflags ▸ hl))).symm
  | true =>
    cases hh : m.current.flags.halt with
    | true =>
      rw [step_of_halt hl hh]
      exact (accessed_prepared_of_inert _ _ _ _ _ (.inr (hflags ▸ hh))).symm
    | false => rw [step_of_legal hl hh, complete_fst]; rfl

theorem flags_step (m : Machine) : m.step.1.flags = m.current.flags := by
  rw [step_fst, accessed_flags, prepared_flags]
  rfl

theorem stepEnd_halted_iff {i : Instruction} :
    i.stepEnd = .halted ↔
      (i.flags.legal = true ∧ i.memFault = false) ∧ i.flags.halt = true := by
  unfold stepEnd
  cases i.flags.legal <;> cases i.memFault <;> cases i.flags.halt <;> simp

/-- The machine after a step that completes. -/
theorem step_snd_of_completed {m : Machine} (h : m.step.1.stepEnd = .completed) :
    m.step.2 =
      { m.counted with
        regs := m.step.1.commit m.regs
        pc := m.step.1.nextPc
        memory := m.step.1.stored m.memory } ∧ m.step.1.Fits m.memory := by
  have hf := flags_step m
  unfold stepEnd at h
  rw [hf] at h
  split at h
  next => cases h
  next hbad =>
    split at h
    next => cases h
    next hh =>
      simp only [Bool.or_eq_true, Bool.not_eq_true', not_or, Bool.not_eq_false,
        Bool.not_eq_true] at hbad hh
      have hfault := hbad.2
      rw [step_fst] at hfault ⊢
      rw [step_of_legal hbad.1 hh]
      exact complete_snd m.counted hfault

theorem step_snd_of_halted {m : Machine} (h : m.step.1.stepEnd = .halted) :
    m.step.2 = m.counted := by
  obtain ⟨⟨hl, -⟩, hh⟩ := stepEnd_halted_iff.mp h
  rw [flags_step] at hl hh
  rw [step_of_halt hl hh]

theorem step_snd_of_failed {m : Machine} (h : m.step.1.stepEnd = .failed) :
    m.step.2 = m.counted.countException := by
  cases hl : m.current.flags.legal with
  | false => rw [step_of_illegal hl]
  | true =>
    cases hh : m.current.flags.halt with
    | true =>
      have hend : m.current.stepEnd = .halted := stepEnd_halted_iff.mpr ⟨⟨hl, rfl⟩, hh⟩
      rw [step_of_halt hl hh] at h
      exact absurd (hend.symm.trans h) (by simp)
    | false =>
      have hf := flags_step m
      have hfault : m.step.1.memFault = true := by
        cases hx : m.step.1.memFault with
        | true => rfl
        | false =>
          have hend := Sequential.stepEnd_completed (hf ▸ hl) hx (hf ▸ hh)
          exact absurd (hend.symm.trans h) (by simp)
      rw [step_fst] at hfault
      rw [step_of_legal hl hh, complete_snd_of_fault m.counted (prepared_memFault _ _ _ _) hfault]

/-- A step that does not complete leaves registers, memory and program counter alone. -/
theorem step_snd_of_not_completed {m : Machine} (h : m.step.1.stepEnd ≠ .completed) :
    m.step.2.regs = m.regs ∧ m.step.2.memory = m.memory ∧ m.step.2.pc = m.pc := by
  cases hend : m.step.1.stepEnd with
  | completed => exact absurd hend h
  | halted => rw [step_snd_of_halted hend]; exact ⟨rfl, rfl, rfl⟩
  | failed => rw [step_snd_of_failed hend]; exact ⟨rfl, rfl, rfl⟩

theorem nextId_step (m : Machine) : m.step.2.nextId = m.nextId + 1 := by
  unfold step complete
  simp only
  (repeat' split) <;> rfl

theorem instructions_step (m : Machine) :
    m.step.2.counters.instructions = m.counters.instructions + 1 := by
  unfold step complete
  simp only
  (repeat' split) <;> rfl

theorem nextId_after (m : Machine) (n : Nat) : (m.after n).nextId = m.nextId + n := by
  induction n with
  | zero => rfl
  | succ n ih => rw [after, nextId_step, ih, Nat.add_assoc]

theorem instructions_after (m : Machine) (n : Nat) :
    (m.after n).counters.instructions = m.counters.instructions + n := by
  induction n with
  | zero => rfl
  | succ n ih => rw [after, instructions_step, ih, Nat.add_assoc]

theorem exceptions_step {m : Machine} (h : m.step.1.stepEnd ≠ .failed) :
    m.step.2.counters.exceptions = m.counters.exceptions := by
  cases hend : m.step.1.stepEnd with
  | completed => rw [(step_snd_of_completed hend).1]; rfl
  | halted => rw [step_snd_of_halted hend]; rfl
  | failed => exact absurd hend h

theorem exceptions_after {m : Machine} {n : Nat}
    (h : ∀ k, k < n → (m.executed k).stepEnd ≠ .failed) :
    (m.after n).counters.exceptions = m.counters.exceptions := by
  induction n with
  | zero => rfl
  | succ n ih =>
    rw [after, exceptions_step (h n (Nat.lt_succ_self n))]
    exact ih fun k hk => h k (Nat.lt_succ_of_lt hk)

theorem raw_executed (m : Machine) (n : Nat) :
    (m.executed n).raw = (m.after n).memory.instructionAt (m.after n).pc := by
  rw [executed, step_fst, accessed_raw, prepared_raw]

theorem pc_executed (m : Machine) (n : Nat) : (m.executed n).pc = (m.after n).pc := by
  rw [executed, step_fst, accessed_pc, prepared_pc]

theorem id_executed (m : Machine) (n : Nat) : (m.executed n).id = m.nextId + n := by
  rw [executed, step_fst, accessed_id, prepared_id, nextId_after]

theorem flags_executed (m : Machine) (n : Nat) :
    (m.executed n).flags = (m.executed n).raw.flags := by
  rw [raw_executed, executed, step_fst, accessed_flags, prepared_flags]

/-- A word that an instruction does not overwrite is the same before and after it. -/
theorem instructionAt_after {m : Machine} {n : Nat} {pc : Word} (hr : m.Reaches (n + 1))
    (h : ¬ (m.executed n).Overwrites pc) :
    (m.after (n + 1)).memory.instructionAt pc = (m.after n).memory.instructionAt pc := by
  obtain ⟨he, hfit⟩ := step_snd_of_completed (hr n (Nat.lt_succ_self n))
  rw [after, he]
  exact instructionAt_stored (flags_executed m n) hfit h

/-- An instruction can be fetched behind either of the two instructions in front of it. -/
theorem FetchSafe.instructionAt {m : Machine} (h : m.FetchSafe) {n k : Nat} (hr : m.Reaches n)
    (hk : k ≤ 2) :
    (m.after (n - k)).memory.instructionAt (m.after n).pc =
      (m.after n).memory.instructionAt (m.after n).pc := by
  induction k with
  | zero => rfl
  | succ k ih =>
    rw [← ih (Nat.le_of_succ_le hk)]
    cases hn : n - k with
    | zero => rw [Nat.sub_succ, hn]; rfl
    | succ j =>
      have hj : n - (k + 1) = j := by omega
      have hjn : n = j + k + 1 := by omega
      rw [hj]
      refine (instructionAt_after (hr.mono (by omega)) ?_).symm
      have := h j k hk (hjn ▸ hr)
      rwa [← hjn, pc_executed] at this

section Runs

variable {m : Machine} {n : Nat}

theorem runSteps_add (h : m.Reaches n) (k : Nat) : m.runSteps (n + k) = (m.after n).runSteps k := by
  induction n generalizing k with
  | zero => rw [Nat.zero_add]; rfl
  | succ n ih =>
    rw [Nat.add_assoc, ih (h.mono (Nat.le_succ n)), Nat.add_comm 1 k, runSteps]
    have he : (m.after n).step.1.stepEnd = .completed := h n (Nat.lt_succ_self n)
    simp only [he]
    rfl

/-- The functional run ends with the first step that does not complete. -/
theorem runSteps_of_halted (h : m.Reaches n) (he : (m.executed n).stepEnd = .halted) {k : Nat}
    (hk : n < k) : m.runSteps k = (.halt, m.after (n + 1)) := by
  obtain ⟨j, rfl⟩ : ∃ j, k = n + (j + 1) := ⟨k - n - 1, by omega⟩
  have he : (m.after n).step.1.stepEnd = .halted := he
  rw [runSteps_add h, runSteps]
  simp only [he]
  rfl

theorem runSteps_of_failed (h : m.Reaches n) (he : (m.executed n).stepEnd = .failed) {k : Nat}
    (hk : n < k) : m.runSteps k = (.exception, m.after (n + 1)) := by
  obtain ⟨j, rfl⟩ : ∃ j, k = n + (j + 1) := ⟨k - n - 1, by omega⟩
  have he : (m.after n).step.1.stepEnd = .failed := he
  rw [runSteps_add h, runSteps]
  simp only [he]
  rfl

theorem runSteps_of_reaches (h : m.Reaches n) : m.runSteps n = (.success, m.after n) :=
  runSteps_add h 0

/-- A run of `n` steps goes on, or one of them has ended it. -/
theorem reaches_or_ends (m : Machine) (n : Nat) :
    m.Reaches n ∨ ∃ k, k < n ∧ m.Reaches k ∧ (m.executed k).stepEnd ≠ .completed := by
  induction n with
  | zero =>
    left
    intro k hk
    exact absurd hk (Nat.not_lt_zero k)
  | succ n ih =>
    rcases ih with h | ⟨k, hk, hr, he⟩
    · by_cases he : (m.executed n).stepEnd = .completed
      · exact .inl (h.succ he)
      · exact .inr ⟨n, Nat.lt_succ_self n, h, he⟩
    · exact .inr ⟨k, Nat.lt_succ_of_lt hk, hr, he⟩

theorem exists_halted (h : (m.runSteps n).1 = .halt) :
    ∃ k, k < n ∧ m.Reaches k ∧ (m.executed k).stepEnd = .halted := by
  rcases m.reaches_or_ends n with hr | ⟨k, hk, hr, he⟩
  · rw [runSteps_of_reaches hr] at h; cases h
  · cases hend : (m.executed k).stepEnd with
    | completed => exact absurd hend he
    | halted => exact ⟨k, hk, hr, hend⟩
    | failed => rw [runSteps_of_failed hr hend hk] at h; cases h

theorem FaultFree.not_failed (h : m.FaultFree) (hr : m.Reaches n) :
    (m.executed n).stepEnd ≠ .failed := fun he =>
  h (n + 1) (by rw [runSteps_of_failed hr he (Nat.lt_succ_self n)])

/-- Of a run that ends, only the instructions before its end have to be looked at. -/
theorem fetchSafe_of_ends (he : (m.executed n).stepEnd ≠ .completed)
    (h : ∀ i, i < n → ∀ k, k < 2 → i + k + 1 ≤ n →
      ¬ (m.executed i).Overwrites (m.executed (i + k + 1)).pc) : m.FetchSafe := by
  intro i k hk hr
  have hn : i + k + 1 ≤ n := Nat.le_of_not_lt fun hlt => he (hr n hlt)
  exact h i (by omega) k hk hn

theorem faultFree_of_halted (hr : m.Reaches n) (he : (m.executed n).stepEnd = .halted) :
    m.FaultFree := by
  intro k
  by_cases hk : n < k
  · rw [runSteps_of_halted hr he hk]
    simp
  · rw [runSteps_of_reaches (hr.mono (Nat.le_of_not_lt hk))]
    simp

end Runs

end Machine

namespace Sequential

/-- The state is where a machine is after `n` functional steps. -/
structure Follows (s : Sequential) (m : Machine) (n : Nat) : Prop where
  regs : s.regs = (m.after n).regs
  pc : s.pc = (m.after n).pc
  memory : s.memory = (m.after n).memory
  recent : s.recent = (m.after (n - 1)).memory
  older : s.older = (m.after (n - 2)).memory
  running : s.halted = false → m.Reaches n
  stopped : s.halted = true → ∃ k, n = k + 1 ∧ m.Reaches k ∧ (m.executed k).stepEnd = .halted

theorem Follows.start (m : Machine) : (start m).Follows m 0 where
  regs := rfl
  pc := rfl
  memory := rfl
  recent := rfl
  older := rfl
  running := fun _ _ hk => absurd hk (Nat.not_lt_zero _)
  stopped := nofun

namespace Follows

variable {s : Sequential} {m : Machine} {n : Nat}

/-- The words that fetch may bring in are the word that the machine executes. -/
theorem word (h : s.Follows m n) (hsafe : m.FetchSafe) (hrun : s.halted = false) {w : InstWord}
    (hw : s.Sees s.pc w) : w = (m.executed n).raw := by
  rw [Machine.raw_executed]
  rcases hw with hw | hw
  · rw [hw, h.recent, h.pc, hsafe.instructionAt (h.running hrun) (by decide)]
  · rw [hw, h.older, h.pc, hsafe.instructionAt (h.running hrun) (by decide)]

/-- The record of the instruction that comes next, but for its number. -/
theorem record_eq (h : s.Follows m n) (id : Nat) :
    s.record (m.executed n).raw id = { m.executed n with id } := by
  rw [Machine.raw_executed]
  unfold Machine.executed record
  rw [Machine.step_fst, h.regs, h.pc, h.memory]
  unfold Instruction.prepared
  rw [Instruction.withAddress_eq, Instruction.withAddress_eq, Instruction.accessed_eq,
    Instruction.accessed_eq]
  rfl

theorem stepEnd_record (h : s.Follows m n) (id : Nat) :
    (s.record (m.executed n).raw id).stepEnd = (m.executed n).stepEnd := by
  rw [h.record_eq]
  rfl

/-- The state behind an instruction that does not fail follows the machine on. -/
theorem next (h : s.Follows m n) (hrun : s.halted = false) (id : Nat)
    (hf : (m.executed n).stepEnd ≠ .failed) :
    (s.next (s.record (m.executed n).raw id)).Follows m (n + 1) := by
  have hr := h.running hrun
  have hsub : n + 1 - 2 = n - 1 := by omega
  have he := h.stepEnd_record id
  cases hend : (m.executed n).stepEnd with
  | completed =>
    obtain ⟨hstep, -⟩ := Machine.step_snd_of_completed hend
    rw [hend] at he
    rw [next_of_completed _ he]
    rw [h.record_eq]
    have hafter : m.after (n + 1) = _ := hstep
    exact {
      regs := by rw [hafter, h.regs]; rfl
      pc := by rw [hafter]; rfl
      memory := by rw [hafter, h.memory]; rfl
      recent := h.memory
      older := by rw [hsub]; exact h.recent
      running := fun _ => hr.succ hend
      stopped := fun hh => absurd (hrun.symm.trans hh) (by simp) }
  | halted =>
    obtain ⟨hregs, hmem, hpc⟩ := Machine.step_snd_of_not_completed
      (m := m.after n) (by rw [← Machine.executed, hend]; simp)
    rw [hend] at he
    rw [next_of_halted _ he]
    exact {
      regs := h.regs.trans hregs.symm
      pc := h.pc.trans hpc.symm
      memory := h.memory.trans hmem.symm
      recent := h.memory
      older := by rw [hsub]; exact h.recent
      running := nofun
      stopped := fun _ => ⟨n, rfl, hr, hend⟩ }
  | failed => exact absurd hend hf

end Follows

/-- A state before any exception that follows a machine, which numbers its instructions from zero.
-/
structure InStep (s : Sequential) (m : Machine) : Prop where
  follows : s.Follows m s.retired
  untrapped : s.trapped = false

theorem InStep.start (m : Machine) : (start m).InStep m := ⟨Follows.start m, rfl⟩

theorem stepEnd_ne_failed_iff {i : Instruction} :
    i.stepEnd ≠ .failed ↔ (!i.flags.legal || i.memFault) = false := by
  unfold stepEnd
  split
  next h => simp [h]
  next h => split <;> simpa using h

theorem trapped_next_of_ne_failed {s : Sequential} {i : Instruction} (h : i.stepEnd ≠ .failed) :
    (s.next i).trapped = s.trapped := by
  rw [trapped_next, Bool.or_assoc, stepEnd_ne_failed_iff.mp h, Bool.or_false]

namespace InStep

variable {s : Sequential} {m : Machine} {i : Instruction}

/-- The instruction that comes next is that of the next functional step. -/
theorem record_eq (h : s.InStep m) (hsafe : m.FetchSafe) (hid : m.nextId = 0)
    (hacc : s.Accepts i) : s.record i.raw i.id = m.executed s.retired := by
  have hraw := h.follows.word hsafe hacc.running hacc.sees
  have hnum : i.id = (m.executed s.retired).id := by
    rw [hacc.numbered h.untrapped, Machine.id_executed, hid, Nat.zero_add]
  rw [hraw, h.follows.record_eq, hnum]

theorem next (h : s.InStep m) (hrun : s.halted = false)
    (hf : (m.executed s.retired).stepEnd ≠ .failed) : (s.next (m.executed s.retired)).InStep m := by
  have he := h.follows.record_eq (m.executed s.retired).id
  have hn := h.follows.next hrun (m.executed s.retired).id hf
  rw [he] at hn
  refine ⟨?_, (trapped_next_of_ne_failed hf).trans h.untrapped⟩
  rw [retired_next]
  exact hn

end InStep

/-- A run from the state of a machine that meets no exception consists of its functional steps. -/
theorem Run.inStep {m : Machine} {is : List Instruction} {t : Sequential}
    (h : (Sequential.start m).Run is t) (hsafe : m.FetchSafe) (hid : m.nextId = 0)
    (ht : t.trapped = false) :
    t.InStep m ∧ is = (List.range is.length).map m.executed := by
  induction h with
  | nil => exact ⟨.start m, rfl⟩
  | @snoc is t i hrun hacc hrec ih =>
    rw [trapped_next, Bool.or_assoc, Bool.or_eq_false_iff] at ht
    obtain ⟨hin, his⟩ := ih ht.1
    have hi : i = m.executed t.retired := hrec.trans (hin.record_eq hsafe hid hacc)
    have hlen : t.retired = is.length := by
      have := hrun.retired_eq
      rwa [start, Nat.zero_add] at this
    refine ⟨?_, ?_⟩
    · have := hin.next hacc.running (by rw [← hi]; exact stepEnd_ne_failed_iff.mpr ht.2)
      rwa [← hi] at this
    · rw [List.length_append, List.length_singleton, List.range_succ, List.map_append, ← his,
        List.map_singleton, ← hlen, ← hi]

end Sequential

end FiveStage
