import FiveStage.Proofs.Consistent

/-! # The first half of a cycle

Writeback and memory move the pipeline on by the instruction that retires. What is left for the
second half is stated by `MidCycle`: the decoded instruction has still to be given the result that
retires. The only way out is a memory fault while an exception has been raised already, which ends
the run. -/

namespace FiveStage

open Instruction

/-- The pipeline between the two halves of a cycle, behind the instruction that has retired. -/
structure MidCycle (s : Sequential) (c : Core) : Prop where
  regs : c.machine.regs = s.regs
  memory : c.machine.memory = (c.memoryPoint s).memory
  instructions : c.machine.counters.instructions = s.retired
  exceptions : c.machine.counters.exceptions = c.pipeline.control.exceptionRaised.toNat
  status : c.pipeline.status = s.status
  writes : c.pipeline.slots.writeback.WritesRegister
  committed : c.pipeline.slots.writeback.commit s.regs = s.regs
  completed : c.pipeline.slots.memory.isLive = true → Completed s c.pipeline.slots.memory
  accepted : c.pipeline.slots.decode.isLive = true →
    (c.memoryPoint s).Accepts c.pipeline.slots.decode
  decoded : c.pipeline.slots.decode.isLive = true →
    Decoded s.regs (c.memoryPoint s).pc c.pipeline.control.controlPending c.pipeline.slots.memory
      (c.pipeline.slots.decode.forward c.pipeline.slots.writeback .writeback)
  decodeClean : c.pipeline.slots.decode.memFault = false
  raised : c.pipeline.control.exceptionRaised =
    ((c.memoryPoint s).foresee c.pipeline.slots.decode).trapped
  numbering : ((c.memoryPoint s).foresee c.pipeline.slots.decode).trapped = false →
    c.machine.nextId = ((c.memoryPoint s).foresee c.pipeline.slots.decode).retired
  frontEnd : FrontEnd ((c.memoryPoint s).foresee c.pipeline.slots.decode) c
  steered : c.pipeline.control.redirect.isSome = true → c.pipeline.slots.decode.isLive = true ∨
    ((c.memoryPoint s).foresee c.pipeline.slots.decode).recent = c.machine.memory

namespace Core

/-- The memory phase without the exception it may raise. -/
def accessPhase (c : Core) : Core :=
  let i := c.pipeline.slots.execute.forwardStoreData c.pipeline.slots.writeback
  let stall :=
    if c.machine.accessHits i then c.pipeline.control.memStall
    else (c.machine.memoryStage i).2.dcache.geometry.missLatency
  { machine := (c.machine.memoryStage i).2
    pipeline :=
      { c.pipeline with
        slots := { c.pipeline.slots with memory := (c.machine.memoryStage i).1 }
        control := { c.pipeline.control with memStall := stall } } }

theorem retireHalf_eq (c : Core) :
    c.retireHalf =
      if c.writebackPhase.accessPhase.pipeline.slots.memory.memFault then
        if c.pipeline.control.exceptionRaised then c.writebackPhase.accessPhase.raise
        else c.writebackPhase.accessPhase.raise.flushDecode
      else c.writebackPhase.accessPhase := rfl

end Core

section Raise

variable (c : Core) (m : Machine) (i : Instruction)

@[simp] theorem regs_countException : m.countException.regs = m.regs := rfl
@[simp] theorem memory_countException : m.countException.memory = m.memory := rfl
@[simp] theorem instructions_countException :
    m.countException.counters.instructions = m.counters.instructions := rfl
@[simp] theorem exceptions_countException :
    m.countException.counters.exceptions = m.counters.exceptions + 1 := rfl

@[simp] theorem pipeline_countSquash : (c.countSquash i).pipeline = c.pipeline := by
  unfold Core.countSquash; split <;> rfl
@[simp] theorem regs_countSquash : (c.countSquash i).machine.regs = c.machine.regs := by
  unfold Core.countSquash; split <;> rfl
@[simp] theorem memory_countSquash : (c.countSquash i).machine.memory = c.machine.memory := by
  unfold Core.countSquash; split <;> rfl
@[simp] theorem nextId_countSquash : (c.countSquash i).machine.nextId = c.machine.nextId := by
  unfold Core.countSquash; split <;> rfl
@[simp] theorem instructions_countSquash :
    (c.countSquash i).machine.counters.instructions = c.machine.counters.instructions := by
  unfold Core.countSquash; split <;> rfl
@[simp] theorem exceptions_countSquash :
    (c.countSquash i).machine.counters.exceptions = c.machine.counters.exceptions := by
  unfold Core.countSquash; split <;> rfl

theorem raise_first (h : c.pipeline.control.exceptionRaised = false) :
    c.raise =
      { c with
        machine := c.machine.countException
        pipeline.control :=
          { c.pipeline.control with
            exceptionRaised := true, redirect := some exceptionHandler } } := by
  have : ¬ c.pipeline.control.exceptionRaised = true := by simp [h]
  exact if_neg this

theorem raise_again (h : c.pipeline.control.exceptionRaised = true) :
    c.raise = { c with machine := c.machine.countException, pipeline.status := .exception } :=
  if_pos h

@[simp] theorem machine_raise : c.raise.machine = c.machine.countException := by
  cases h : c.pipeline.control.exceptionRaised with
  | false => rw [raise_first c h]
  | true => rw [raise_again c h]

@[simp] theorem slots_raise : c.raise.pipeline.slots = c.pipeline.slots := by
  cases h : c.pipeline.control.exceptionRaised with
  | false => rw [raise_first c h]
  | true => rw [raise_again c h]

theorem endedTwice_raise {c : Core} (h : c.pipeline.control.exceptionRaised = true)
    (he : 1 ≤ c.machine.counters.exceptions) : c.raise.EndedTwice := by
  rw [raise_again c h]
  exact ⟨rfl, Nat.succ_le_succ he⟩

theorem pipeline_flushDecode :
    c.flushDecode.pipeline =
      { c.pipeline with
        slots := { c.pipeline.slots with decode := Core.discard c.pipeline.slots.decode }
        control := { c.pipeline.control with controlPending := false } } := by
  simp [Core.flushDecode]

@[simp] theorem machine_flushDecode :
    c.flushDecode.machine = (c.countSquash c.pipeline.slots.decode).machine := rfl

end Raise

section Stages

variable (m : Machine) (i : Instruction)

theorem regs_writebackStage : (m.writebackStage i).regs = i.commit m.regs := by
  unfold Machine.writebackStage
  split
  next => rfl
  next h =>
    rw [commit_of_dest_none]
    exact dest_of_not_live (by simpa using h)

@[simp] theorem memory_writebackStage : (m.writebackStage i).memory = m.memory := by
  unfold Machine.writebackStage; split <;> rfl
@[simp] theorem pc_writebackStage : (m.writebackStage i).pc = m.pc := by
  unfold Machine.writebackStage; split <;> rfl
@[simp] theorem nextId_writebackStage : (m.writebackStage i).nextId = m.nextId := by
  unfold Machine.writebackStage; split <;> rfl
@[simp] theorem exceptions_writebackStage :
    (m.writebackStage i).counters.exceptions = m.counters.exceptions := by
  unfold Machine.writebackStage; split <;> rfl
theorem instructions_writebackStage :
    (m.writebackStage i).counters.instructions = m.counters.instructions + i.isLive.toNat := by
  unfold Machine.writebackStage; split <;> simp [*]

@[simp] theorem regs_memoryStage : (m.memoryStage i).2.regs = m.regs := by
  unfold Machine.memoryStage; (repeat' split) <;> rfl
@[simp] theorem pc_memoryStage : (m.memoryStage i).2.pc = m.pc := by
  unfold Machine.memoryStage; (repeat' split) <;> rfl
@[simp] theorem nextId_memoryStage : (m.memoryStage i).2.nextId = m.nextId := by
  unfold Machine.memoryStage; (repeat' split) <;> rfl
@[simp] theorem counters_memoryStage : (m.memoryStage i).2.counters = m.counters := by
  unfold Machine.memoryStage; (repeat' split) <;> rfl

theorem memoryStage_of_not_live {i : Instruction} (h : i.isLive = false) :
    m.memoryStage i = (i, m) := by simp [Machine.memoryStage, Machine.accessesMemory, h]

end Stages

theorem forwardStoreData_of_not_live {i : Instruction} (h : i.isLive = false)
    (producer : Instruction) : i.forwardStoreData producer = i := by
  simp [forwardStoreData, acceptsStoreData, h]

@[simp] theorem isLive_forwardStoreData (i producer : Instruction) :
    (i.forwardStoreData producer).isLive = i.isLive := by
  unfold forwardStoreData; split <;> rfl

theorem discard_not_live (i : Instruction) : (Core.discard i).isLive = false := by
  unfold Core.discard
  split
  next => rfl
  next h =>
    simp only [isFetched, Bool.or_eq_true, not_or] at h
    simpa [isLive] using h.1

theorem discard_clean {i : Instruction} (h : i.memFault = false) :
    (Core.discard i).memFault = false := by
  unfold Core.discard
  split
  next => rfl
  next => exact h

theorem Completed.writesRegister {s : Sequential} {i : Instruction} (h : Completed s i) :
    i.WritesRegister := by
  apply writesRegister_of_rd
  rw [h.record]
  exact Sequential.record_rd_lt _ _ _

/-- The registers behind a completed instruction are those it commits to. -/
theorem Sequential.regs_pass {s : Sequential} {i : Instruction}
    (h : i.isLive = true → Completed s i) : (s.pass i).regs = i.commit s.regs := by
  cases hl : i.isLive with
  | false => rw [Sequential.pass_of_not_live _ hl, commit_of_dest_none (dest_of_not_live hl)]
  | true =>
    have hm := h hl
    rw [Sequential.pass_of_live _ hl, ← hm.record]
    exact Sequential.regs_next s (w := i.raw) (by rw [hm.record]; simp)

theorem writesRegister_of_completed {s : Sequential} {i : Instruction}
    (h : i.isLive = true → Completed s i) : i.WritesRegister := by
  cases hl : i.isLive with
  | false => exact writesRegister_of_not_live hl
  | true => exact (h hl).writesRegister

theorem retired_memoryPoint (s : Sequential) (c : Core) :
    (c.memoryPoint s).retired = s.retired + c.pipeline.slots.memory.isLive.toNat := by
  change (s.pass _).retired = _
  unfold Sequential.pass
  split <;> simp [*]

namespace BackEnd

variable {s : Sequential} {c : Core}

theorem regs_memoryPoint (h : BackEnd s c) :
    (c.memoryPoint s).regs = c.pipeline.slots.memory.commit s.regs :=
  Sequential.regs_pass h.completed

/-- The registers already hold what the instruction that retires commits. -/
theorem commit_memoryPoint (h : BackEnd s c) :
    c.pipeline.slots.memory.commit (c.memoryPoint s).regs = (c.memoryPoint s).regs := by
  rw [h.regs_memoryPoint, commit_commit]

theorem writesRegister (h : BackEnd s c) : c.pipeline.slots.memory.WritesRegister :=
  writesRegister_of_completed h.completed

end BackEnd

/-- What the access of a consistent pipeline leaves in the memory slot. -/
structure Accessed (s : Sequential) (c c' : Core) : Prop where
  live : c'.pipeline.slots.memory.isLive = c.pipeline.slots.execute.isLive
  completed : c.pipeline.slots.execute.isLive = true →
    c'.pipeline.slots.memory = s.record c.pipeline.slots.execute.raw c.pipeline.slots.execute.id
  clean : c.pipeline.slots.execute.isLive = false →
    c'.pipeline.slots.memory.memFault = false
  memory : c'.machine.memory = (c'.memoryPoint s).memory
  regs : c'.machine.regs = s.regs
  instructions : c'.machine.counters.instructions = s.retired
  exceptions : c'.machine.counters.exceptions = c.machine.counters.exceptions
  nextId : c'.machine.nextId = c.machine.nextId
  pc : c'.machine.pc = c.machine.pc

theorem Consistent.accessPhase {s : Sequential} {c : Core} (h : Consistent s c) :
    Accessed (c.memoryPoint s) c c.writebackPhase.accessPhase := by
  have hmem : c.writebackPhase.machine.memory = (c.memoryPoint s).memory :=
    (memory_writebackStage _ _).trans h.memory
  have hregs : c.writebackPhase.accessPhase.machine.regs = (c.memoryPoint s).regs := by
    refine (regs_memoryStage _ _).trans ((regs_writebackStage _ _).trans ?_)
    rw [h.regs_memoryPoint, h.regs]
  have hins : c.writebackPhase.accessPhase.machine.counters.instructions =
      (c.memoryPoint s).retired := by
    refine (congrArg Counters.instructions (counters_memoryStage _ _)).trans
      ((instructions_writebackStage _ _).trans ?_)
    rw [retired_memoryPoint, h.instructions]
  have hexc : c.writebackPhase.accessPhase.machine.counters.exceptions =
      c.machine.counters.exceptions :=
    (congrArg Counters.exceptions (counters_memoryStage _ _)).trans (exceptions_writebackStage _ _)
  have hid : c.writebackPhase.accessPhase.machine.nextId = c.machine.nextId :=
    (nextId_memoryStage _ _).trans (nextId_writebackStage _ _)
  have hpc : c.writebackPhase.accessPhase.machine.pc = c.machine.pc :=
    (pc_memoryStage _ _).trans (pc_writebackStage _ _)
  cases hl : c.pipeline.slots.execute.isLive with
  | false =>
    have hi : c.pipeline.slots.execute.forwardStoreData c.pipeline.slots.memory =
        c.pipeline.slots.execute := forwardStoreData_of_not_live hl _
    have hs : c.writebackPhase.machine.memoryStage (c.pipeline.slots.execute.forwardStoreData
        c.pipeline.slots.memory) = (c.pipeline.slots.execute, c.writebackPhase.machine) := by
      rw [hi]; exact memoryStage_of_not_live _ hl
    have hslot : c.writebackPhase.accessPhase.pipeline.slots.memory = c.pipeline.slots.execute :=
      congrArg Prod.fst hs
    have hmach : c.writebackPhase.accessPhase.machine = c.writebackPhase.machine :=
      congrArg Prod.snd hs
    refine ⟨by rw [hslot], by simp [hl], fun _ => hslot ▸ h.executeClean, ?_, hregs, hins, hexc,
      hid, hpc⟩
    change _ = (Sequential.pass _ c.writebackPhase.accessPhase.pipeline.slots.memory).memory
    rw [hmach, hmem, hslot, Sequential.pass_of_not_live _ hl]
  | true =>
    obtain ⟨-, hp⟩ := h.executed hl
    have hslot : c.writebackPhase.accessPhase.pipeline.slots.memory =
        (c.memoryPoint s).record c.pipeline.slots.execute.raw c.pipeline.slots.execute.id := by
      have := memoryStage_eq c.writebackPhase.machine
        (i := c.pipeline.slots.execute.forwardStoreData c.pipeline.slots.memory)
        (w := c.pipeline.slots.execute.raw) (by simpa using hl) (by rw [hp]; simp)
      refine this.trans ?_
      rw [hmem, hp]
      rfl
    have hlive : c.writebackPhase.accessPhase.pipeline.slots.memory.isLive = true := by
      rw [hslot]; exact Sequential.record_isLive _ _ _
    refine ⟨by rw [hlive, hl], fun _ => hslot, by simp [hl], ?_, hregs, hins, hexc, hid, hpc⟩
    have := Sequential.memory_memoryStage (c.memoryPoint s) hmem c.pipeline.slots.execute.raw
      c.pipeline.slots.execute.id
    rw [← hp] at this
    refine this.trans ?_
    change _ = (Sequential.pass _ c.writebackPhase.accessPhase.pipeline.slots.memory).memory
    rw [Sequential.pass_of_live _ hlive, hslot, Sequential.record_raw, Sequential.record_id]

/-- The access that has not failed is the one that was foreseen. -/
theorem Accessed.memoryPoint_eq {s : Sequential} {c c' : Core} (h : Accessed s c c')
    (hf : c'.pipeline.slots.memory.memFault = false) :
    c'.memoryPoint s = s.foresee c.pipeline.slots.execute := by
  change s.pass _ = _
  cases hl : c.pipeline.slots.execute.isLive with
  | false =>
    rw [Sequential.pass_of_not_live _ (h.live.trans hl), Sequential.foresee_of_not_live _ hl]
  | true =>
    have hr := h.completed hl
    rw [Sequential.foresee_eq_pass _ fun _ => by rw [← hr, hf],
      Sequential.pass_of_live _ (h.live.trans hl), Sequential.pass_of_live _ hl, hr,
      Sequential.record_raw, Sequential.record_id]

theorem successor_issued_congr (regs regs' : Registers) (pc : Word) (w : InstWord) (id : Nat)
    (h : (issued regs pc w id).needsOperands = false) :
    (issued regs' pc w id).successor = (issued regs pc w id).successor := by
  cases hl : w.flags.legal with
  | false => simp [successor, hl, fallThrough]
  | true =>
    simp only [needsOperands, issued_flags, issued_class, hl, Bool.true_and,
      Bool.or_eq_false_iff] at h
    simp only [successor, issued_flags, issued_class, hl, if_true]
    cases hc : Opcode.ofCode? w.opcode with
    | none => rfl
    | some o =>
      cases o with
      | branch => exact absurd hc (of_decide_eq_false h.1)
      | jalr => exact absurd hc (of_decide_eq_false h.2)
      | _ => rfl

/-- A decoded instruction stays decoded when its operands are brought up to date. -/
theorem Decoded.refresh {regs regs' : Registers} {pc : Word} {pending : Bool}
    {producer producer' i : Instruction} (h : Decoded regs pc pending producer i)
    (hregs : pending = false → i.needsOperands = true → regs' = regs)
    (hdest : producer'.dest = producer.dest) :
    Decoded regs' pc pending producer' { issued regs' pc i.raw i.id with nextPc := i.nextPc } := by
  have hneeds := h.needsOperands_eq
  refine ⟨rfl, ?_, ?_, ?_⟩
  · refine h.nextPc.trans ?_
    cases pending with
    | true => exact congrArg (· + 4) h.pc_eq
    | false =>
      refine h.successor_eq.trans ?_
      change _ = (issued regs' pc i.raw i.id).successor
      cases hn : i.needsOperands with
      | true => rw [hregs rfl hn]
      | false => exact (successor_issued_congr _ _ _ _ _ (hneeds ▸ hn)).symm
  · intro hp
    exact (hneeds.symm.trans (h.waits hp) :)
  · intro hp hn rd hd
    exact h.ignores (h.ready hp (hneeds.trans hn)) rd (hdest ▸ hd)

namespace Sequential

theorem halted_next (s : Sequential) {i : Instruction} {w : InstWord} (hw : i.flags = w.flags)
    (hf : w.flags.halt = true → i.memFault = false) :
    (s.next i).halted = (s.halted || w.flags.halt) := by
  cases hh : w.flags.halt with
  | true =>
    have he := stepEnd_halted (i := i) (by rw [hw, InstWord.flags_halt hh]) (hf hh)
      (by rw [hw, hh])
    simp [next, he]
  | false =>
    unfold next Instruction.stepEnd
    cases i.flags.legal <;> cases i.memFault <;> simp [hw, hh]

theorem memFault_record_of_halt (s : Sequential) {w : InstWord} (id : Nat)
    (h : w.flags.halt = true) : (s.record w id).memFault = false := by
  unfold record
  rw [Instruction.accessed_eq]
  simp [InstWord.flags_halt h]

theorem halted_foresee (s : Sequential) (i : Instruction) :
    (s.foresee i).halted = (s.halted || (i.isLive && i.raw.flags.halt)) := by
  unfold foresee
  split
  next hl => rw [halted_next s (w := i.raw) (by simp) (fun _ => rfl), hl, Bool.true_and]
  next hl => simp [hl]

end Sequential

/-- A run that has not ended has not met the halt word. -/
theorem BackEnd.running {s : Sequential} {c : Core} (h : BackEnd s c)
    (hs : c.pipeline.status = .success) : s.halted = false := by
  have := h.status.symm.trans hs
  unfold Sequential.status at this
  split at this
  · split at this <;> cases this
  next hh => simpa using hh

/-- An instruction that retires ends the run when it is the halt word. -/
theorem Consistent.statusAfter {s : Sequential} {c : Core} (h : Consistent s c)
    (hs : c.pipeline.status = .success) :
    c.statusAfter c.pipeline.slots.memory = (c.memoryPoint s).status := by
  have hrun := h.running hs
  unfold Core.statusAfter
  change _ = (s.pass _).status
  cases hl : c.pipeline.slots.memory.isLive with
  | false => rw [Sequential.pass_of_not_live _ hl]; simpa using h.status
  | true =>
    have hm := h.completed hl
    have hflags : c.pipeline.slots.memory.flags = c.pipeline.slots.memory.raw.flags := by
      rw [hm.record]; simp
    rw [Sequential.pass_of_live _ hl, ← hm.record]
    have hclean : c.pipeline.slots.memory.raw.flags.halt = true →
        c.pipeline.slots.memory.memFault = false := by
      intro hh
      rw [hm.record]
      exact Sequential.memFault_record_of_halt _ _ hh
    have hhalted := Sequential.halted_next s hflags hclean
    rw [hrun, Bool.false_or] at hhalted
    cases hh : c.pipeline.slots.memory.raw.flags.halt with
    | false => simp [hflags, hh, Sequential.status, hhalted, hs]
    | true =>
      -- behind the halt word nothing is live, so that the exception flag is up to date
      have hstop : (c.memoryPoint s).halted = true := by
        change (s.pass _).halted = true
        rw [Sequential.pass_of_live _ hl, ← hm.record, hhalted, hh]
      have he : c.pipeline.slots.execute.isLive = false := by
        apply Bool.eq_false_iff.mpr
        intro hx
        have := (h.executed hx).accepts.running
        rw [hstop] at this
        cases this
      have hpoint : c.executePoint s = c.memoryPoint s := Sequential.foresee_of_not_live _ he
      have hd : c.pipeline.slots.decode.isLive = false := by
        apply Bool.eq_false_iff.mpr
        intro hx
        have := (h.accepted hx).running
        rw [hpoint, hstop] at this
        cases this
      have hraised : c.pipeline.control.exceptionRaised =
          (s.next c.pipeline.slots.memory).trapped := by
        rw [h.raised, Core.decodePoint, Sequential.foresee_of_not_live _ hd, hpoint]
        conv => rhs; rw [hm.record]
        rw [← Sequential.pass_of_live _ hl]
        rfl
      simp [hflags, hh, Sequential.status, hhalted, hraised]

theorem dest_congr {i j : Instruction} (hs : i.status = j.status) (hf : i.flags = j.flags)
    (hr : i.rd = j.rd) (hm : i.memFault = j.memFault) : i.dest = j.dest := by
  unfold dest isLive
  rw [hs, hf, hr, hm]

theorem forwardStoreData_fields (i producer : Instruction) :
    (i.forwardStoreData producer).status = i.status ∧
      (i.forwardStoreData producer).flags = i.flags ∧ (i.forwardStoreData producer).rd = i.rd ∧
      (i.forwardStoreData producer).memFault = i.memFault := by
  unfold forwardStoreData
  split <;> exact ⟨rfl, rfl, rfl, rfl⟩

/-- An executed instruction will write the register that its word names. -/
theorem Executed.dest_eq {s : Sequential} {producer i : Instruction} (h : Executed s producer i) :
    i.dest = (Instruction.prepared s.regs s.pc i.raw i.id).dest := by
  obtain ⟨h1, h2, h3, h4⟩ := forwardStoreData_fields i producer
  rw [← h.prepared]
  exact dest_congr h1.symm h2.symm h3.symm h4.symm

namespace Consistent

variable {s : Sequential} {c : Core}

/-- The decoded instruction takes over the result that retires. -/
theorem decoded_forward (h : Consistent s c) {producer : Instruction}
    (hl : c.pipeline.slots.decode.isLive = true)
    (hdest : producer.dest = c.pipeline.slots.execute.dest) :
    Decoded (c.memoryPoint s).regs (c.executePoint s).pc c.pipeline.control.controlPending producer
      (c.pipeline.slots.decode.forward c.pipeline.slots.memory .writeback) := by
  have hd := h.decoded hl
  have hcommit : c.pipeline.slots.memory.commit
      (if c.pipeline.control.controlPending || !c.pipeline.slots.decode.needsOperands then s.regs
        else (c.memoryPoint s).regs) = (c.memoryPoint s).regs := by
    rw [h.regs_memoryPoint]
    split
    · rfl
    · exact commit_commit _ _
  have hfwd : c.pipeline.slots.decode.forward c.pipeline.slots.memory .writeback =
      { issued (c.memoryPoint s).regs (c.executePoint s).pc c.pipeline.slots.decode.raw
          c.pipeline.slots.decode.id with nextPc := c.pipeline.slots.decode.nextPc } := by
    conv => lhs; rw [hd.form]
    rw [forward_writeback _ _ _ _ _ h.writesRegister, hcommit]
  rw [hfwd]
  apply hd.refresh _ hdest
  intro hp hn
  rw [if_neg (by simp [hp, hn])]

/-- What has been executed is completed by its access, whether it fails or not. -/
theorem completed_accessPhase (h : Consistent s c) (hx : c.pipeline.slots.execute.isLive = true) :
    Completed (c.memoryPoint s) c.writebackPhase.accessPhase.pipeline.slots.memory := by
  obtain ⟨hacc, -⟩ := h.executed hx
  rw [h.accessPhase.completed hx]
  refine ⟨⟨hacc.running, ?_, ?_⟩, ?_⟩
  · rw [Sequential.record_raw]; exact hacc.sees
  · rw [Sequential.record_id]; exact hacc.numbered
  · rw [Sequential.record_raw, Sequential.record_id]

/-- The first half of a cycle in which no access fails. -/
theorem midCycle_of_not_fault (h : Consistent s c) (hs : c.pipeline.status = .success)
    (hf : c.writebackPhase.accessPhase.pipeline.slots.memory.memFault = false) :
    MidCycle (c.memoryPoint s) c.writebackPhase.accessPhase := by
  have ha := h.accessPhase
  have hpoint : c.writebackPhase.accessPhase.memoryPoint (c.memoryPoint s) = c.executePoint s :=
    ha.memoryPoint_eq hf
  have hahead : (c.writebackPhase.accessPhase.memoryPoint (c.memoryPoint s)).foresee
      c.writebackPhase.accessPhase.pipeline.slots.decode = c.decodePoint s := by rw [hpoint]; rfl
  have hrecord : c.pipeline.slots.execute.isLive = true →
      Executed (c.memoryPoint s) c.pipeline.slots.memory c.pipeline.slots.execute := h.executed
  exact {
    regs := ha.regs
    memory := ha.memory
    instructions := ha.instructions
    exceptions := ha.exceptions.trans h.exceptions
    status := h.statusAfter hs
    writes := h.writesRegister
    committed := h.commit_memoryPoint
    completed := fun hl => h.completed_accessPhase (ha.live.symm.trans hl)
    accepted := by rw [hpoint]; exact h.accepted
    decoded := by
      intro hl
      rw [hpoint]
      refine h.decoded_forward hl ?_
      cases hx : c.pipeline.slots.execute.isLive with
      | false => rw [dest_of_not_live hx, dest_of_not_live (ha.live.trans hx)]
      | true =>
        rw [(hrecord hx).dest_eq, ha.completed hx]
        refine dest_congr ?_ ?_ ?_ ?_
        · simp
        · simp
        · simp
        · rw [← ha.completed hx, hf, prepared_memFault]
    decodeClean := h.decodeClean
    raised := by rw [hahead]; exact h.raised
    numbering := by
      rw [hahead]
      exact fun ht => ha.nextId.trans (h.numbering ht)
    frontEnd := by
      rw [hahead]
      refine h.frontEnd.congr rfl rfl rfl rfl ha.pc rfl rfl fun _ he _ => ⟨?_, he, ?_⟩
      · exact ha.live.trans he
      · have hmem := ha.memory
        rw [hpoint] at hmem
        rw [hmem, h.memory]
        exact congrArg Sequential.memory (Sequential.foresee_of_not_live _ he)
    steered := fun hr => .inl (h.steered hr) }

/-- An access that fails is that of the executed instruction. -/
theorem live_of_fault (h : Consistent s c)
    (hf : c.writebackPhase.accessPhase.pipeline.slots.memory.memFault = true) :
    c.pipeline.slots.execute.isLive = true := by
  cases hl : c.pipeline.slots.execute.isLive with
  | true => rfl
  | false => rw [h.accessPhase.clean hl] at hf; cases hf

/-- Behind an access that fails comes the exception handler. -/
theorem memoryPoint_of_fault (h : Consistent s c)
    (hf : c.writebackPhase.accessPhase.pipeline.slots.memory.memFault = true) :
    c.writebackPhase.accessPhase.memoryPoint (c.memoryPoint s) =
      { c.memoryPoint s with
        pc := exceptionHandler
        recent := (c.memoryPoint s).memory
        older := (c.memoryPoint s).memory
        retired := (c.memoryPoint s).retired + 1
        trapped := true } := by
  have ha := h.accessPhase
  have hx := h.live_of_fault hf
  have hslot := ha.completed hx
  have he := Sequential.stepEnd_failed (i := c.writebackPhase.accessPhase.pipeline.slots.memory)
    (by simp [hf])
  change (Sequential.pass _ c.writebackPhase.accessPhase.pipeline.slots.memory) = _
  rw [Sequential.pass_of_live _ (ha.live.trans hx), hslot, Sequential.record_raw,
    Sequential.record_id, ← hslot]
  simp only [Sequential.next, he]

/-- The first half of a cycle in which an access fails and no exception has been raised before: the
exception handler comes next, and fetch is on its way to it. -/
theorem midCycle_of_fault (h : Consistent s c) (hs : c.pipeline.status = .success)
    (hf : c.writebackPhase.accessPhase.pipeline.slots.memory.memFault = true)
    (hr : c.pipeline.control.exceptionRaised = false) :
    MidCycle (c.memoryPoint s) c.writebackPhase.accessPhase.raise.flushDecode := by
  have ha := h.accessPhase
  have hx := h.live_of_fault hf
  have hacc : (c.memoryPoint s).Accepts c.pipeline.slots.execute := (h.executed hx).accepts
  have hpoint := h.memoryPoint_of_fault hf
  have hmem := ha.memory
  rw [hpoint] at hmem
  have hr' : c.writebackPhase.accessPhase.pipeline.control.exceptionRaised = false := hr
  have hflush : (Core.discard c.pipeline.slots.decode).isLive = false := discard_not_live _
  have hahead : ∀ t : Sequential, t.foresee (Core.discard c.pipeline.slots.decode) = t :=
    fun t => Sequential.foresee_of_not_live _ hflush
  have hafter : c.writebackPhase.accessPhase.raise.flushDecode.memoryPoint (c.memoryPoint s) =
      c.writebackPhase.accessPhase.memoryPoint (c.memoryPoint s) := by
    unfold Core.memoryPoint
    rw [pipeline_flushDecode, slots_raise]
  have hdec : c.writebackPhase.accessPhase.raise.flushDecode.pipeline.slots.decode =
      Core.discard c.pipeline.slots.decode := by
    rw [pipeline_flushDecode, slots_raise]; rfl
  exact {
    regs := by simp [ha.regs]
    memory := by rw [hafter, hpoint]; simpa using hmem
    instructions := by simp [ha.instructions]
    exceptions := by
      rw [pipeline_flushDecode, raise_first _ hr']
      simp [ha.exceptions, h.exceptions, hr]
    status := by
      rw [pipeline_flushDecode, raise_first _ hr']
      exact h.statusAfter hs
    writes := by rw [pipeline_flushDecode, slots_raise]; exact h.writesRegister
    committed := by
      rw [pipeline_flushDecode, slots_raise]
      exact h.commit_memoryPoint
    completed := by
      intro _
      rw [pipeline_flushDecode, slots_raise]
      exact h.completed_accessPhase hx
    accepted := by
      intro hl
      rw [hdec, hflush] at hl
      cases hl
    decoded := by
      intro hl
      rw [hdec, hflush] at hl
      cases hl
    decodeClean := by rw [hdec]; exact discard_clean h.decodeClean
    raised := by
      rw [hdec, hafter, hahead, hpoint, pipeline_flushDecode, raise_first _ hr']
    numbering := by
      intro ht
      rw [hdec, hafter, hahead, hpoint] at ht
      cases ht
    frontEnd := by
      rw [hdec, hafter, hahead, hpoint]
      refine .steering ?_ ?_ ?_ hacc.running
      · rw [pipeline_flushDecode, slots_raise]; exact h.frontEnd.slot
      · rw [pipeline_flushDecode]
      · rw [pipeline_flushDecode, raise_first _ hr']
    steered := fun _ => .inr <| by
      rw [hdec, hafter, hahead, hpoint]
      simpa using hmem.symm }

/-- A memory fault behind an exception ends the run. -/
theorem endedTwice_of_fault (h : Consistent s c)
    (hr : c.pipeline.control.exceptionRaised = true) :
    c.writebackPhase.accessPhase.raise.EndedTwice := by
  refine endedTwice_raise hr ?_
  rw [h.accessPhase.exceptions, h.exceptions, hr]
  exact Nat.le_refl 1

/-- The first half of a cycle leads to its middle, or a memory fault behind an exception ends the
run. Unless fetch has to be steered, the next word is still that of the same state. -/
theorem retireHalf (h : Consistent s c) (hs : c.pipeline.status = .success) :
    (MidCycle (c.memoryPoint s) c.retireHalf ∧
      (c.retireHalf.pipeline.control.redirect = none →
        (c.retireHalf.memoryPoint (c.memoryPoint s)).foresee c.retireHalf.pipeline.slots.decode =
            c.decodePoint s ∧
          c.retireHalf.pipeline.control.exceptionRaised =
            c.pipeline.control.exceptionRaised)) ∨
      (c.pipeline.control.exceptionRaised = true ∧ c.pipeline.slots.execute.isLive = true ∧
        ((c.memoryPoint s).record c.pipeline.slots.execute.raw
          c.pipeline.slots.execute.id).memFault = true ∧ c.retireHalf.EndedTwice) := by
  have he := c.retireHalf_eq
  cases hf : c.writebackPhase.accessPhase.pipeline.slots.memory.memFault with
  | false =>
    rw [hf, if_neg (by simp)] at he
    rw [he]
    refine .inl ⟨h.midCycle_of_not_fault hs hf, fun _ => ⟨?_, rfl⟩⟩
    rw [h.accessPhase.memoryPoint_eq hf]
    rfl
  | true =>
    rw [hf, if_pos rfl] at he
    cases hr : c.pipeline.control.exceptionRaised with
    | false =>
      rw [hr, if_neg (by simp)] at he
      rw [he]
      refine .inl ⟨h.midCycle_of_fault hs hf hr, ?_⟩
      intro hn
      rw [pipeline_flushDecode, raise_first _ (by exact hr)] at hn
      cases hn
    | true =>
      rw [hr, if_pos rfl] at he
      rw [he]
      have hx := h.live_of_fault hf
      refine .inr ⟨rfl, hx, ?_, h.endedTwice_of_fault hr⟩
      rw [← h.accessPhase.completed hx, hf]

/-- An executed instruction that is about to fail behind an exception ends the run. -/
theorem retireHalf_of_fault (h : Consistent s c)
    (hr : c.pipeline.control.exceptionRaised = true)
    (hx : c.pipeline.slots.execute.isLive = true)
    (hfails : ((c.memoryPoint s).record c.pipeline.slots.execute.raw
      c.pipeline.slots.execute.id).memFault = true) : c.retireHalf.EndedTwice := by
  rw [← h.accessPhase.completed hx] at hfails
  rw [c.retireHalf_eq, hfails, if_pos rfl, hr, if_pos rfl]
  exact h.endedTwice_of_fault hr

end Consistent

theorem retireHalf_slots (c : Core) :
    c.retireHalf.pipeline.slots.writeback = c.pipeline.slots.memory ∧
      c.retireHalf.pipeline.slots.memory.isLive = c.pipeline.slots.execute.isLive ∧
      c.retireHalf.pipeline.slots.memory.raw = c.pipeline.slots.execute.raw ∧
      (c.retireHalf.pipeline.slots.decode = c.pipeline.slots.decode ∨
        c.retireHalf.pipeline.slots.decode = Core.discard c.pipeline.slots.decode) := by
  have hfwd : (c.pipeline.slots.execute.forwardStoreData c.pipeline.slots.memory).raw =
      c.pipeline.slots.execute.raw := by
    unfold forwardStoreData
    split <;> rfl
  have hm : c.writebackPhase.accessPhase.pipeline.slots.memory.isLive =
        c.pipeline.slots.execute.isLive ∧
      c.writebackPhase.accessPhase.pipeline.slots.memory.raw = c.pipeline.slots.execute.raw := by
    rw [← isLive_forwardStoreData c.pipeline.slots.execute c.pipeline.slots.memory, ← hfwd]
    change (Machine.memoryStage _ _).1.isLive = _ ∧ (Machine.memoryStage _ _).1.raw = _
    unfold Machine.memoryStage
    (repeat' split) <;> exact ⟨rfl, rfl⟩
  rw [c.retireHalf_eq]
  split
  · split
    · rw [slots_raise]; exact ⟨rfl, hm.1, hm.2, .inl rfl⟩
    · rw [pipeline_flushDecode, slots_raise]; exact ⟨rfl, hm.1, hm.2, .inr rfl⟩
  · exact ⟨rfl, hm.1, hm.2, .inl rfl⟩

end FiveStage
