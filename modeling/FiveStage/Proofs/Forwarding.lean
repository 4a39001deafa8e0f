import FiveStage.Proofs.Record

/-! # Forwarding

A forwarded result stands for a register that has not been written yet. The lemmas make this exact:
refreshing the operands of an issued instruction from a producer is the same as issuing it from the
registers that the producer leaves behind (`forward_writeback`, `forward_memory`), and an
instruction that leaves decode without a hazard has all its operands when it reaches memory
(`forwardStoreData_executed`). -/

namespace FiveStage.Instruction

/-- The instruction reads no register that the producer writes. -/
def Ignores (i producer : Instruction) : Prop := ∀ rd, producer.dest = some rd → i.reads rd = false

theorem dest_eq_some {i : Instruction} {rd : Nat} (h : i.dest = some rd) :
    i.rd = rd ∧ rd ≠ 0 ∧ i.isLive = true ∧ i.flags.legal = true ∧ i.flags.writesRd = true ∧
      i.memFault = false := by
  unfold dest at h
  split at h
  next hc =>
    simp only [Bool.and_eq_true, decide_eq_true_eq, Bool.not_eq_true'] at hc
    obtain ⟨⟨⟨⟨h1, h2⟩, h3⟩, h4⟩, h5⟩ := hc
    cases h
    exact ⟨rfl, h4, h1, h2, h3, h5⟩
  next => cases h

theorem dest_of_not_live {i : Instruction} (h : i.isLive = false) : i.dest = none := by
  simp [dest, h]

theorem commit_of_dest_none {i : Instruction} (h : i.dest = none) (regs : Registers) :
    i.commit regs = regs := by simp [commit, h]

theorem commit_of_dest {i : Instruction} {rd : Nat} (h : i.dest = some rd) (regs : Registers) :
    i.commit regs = regs.write rd i.result := by simp [commit, h]

/-- Committing an instruction again changes nothing. -/
theorem commit_commit (i : Instruction) (regs : Registers) :
    i.commit (i.commit regs) = i.commit regs := by
  cases h : i.dest with
  | none => simp only [commit_of_dest_none h]
  | some rd => simp only [commit_of_dest h, Registers.write_write]

/-- A producer that writes an existing register. -/
def WritesRegister (producer : Instruction) : Prop :=
  ∀ rd, producer.dest = some rd → rd < registerCount

theorem writesRegister_of_rd {i : Instruction} (h : i.rd < registerCount) : i.WritesRegister := by
  intro rd hd
  rw [← (dest_eq_some hd).1]
  exact h

theorem writesRegister_of_not_live {i : Instruction} (h : i.isLive = false) :
    i.WritesRegister := by
  intro rd hd
  rw [dest_of_not_live h] at hd
  cases hd

variable {producer : Instruction}

theorem read_commit (hrd : producer.WritesRegister) (regs : Registers) (r : Nat) :
    (producer.commit regs).read r =
      if producer.dest = some r then producer.result else regs.read r := by
  cases h : producer.dest with
  | none => simp [commit_of_dest_none h]
  | some rd =>
    obtain ⟨-, h0, -⟩ := dest_eq_some h
    rw [commit_of_dest h]
    by_cases hr : rd = r
    · subst hr
      rw [if_pos rfl, Registers.read_write_same _ _ h0 (hrd _ h)]
    · rw [if_neg (by simpa using hr), Registers.read_write_of_ne _ _ (Ne.symm hr)]

section Issued

variable (regs : Registers) (pc : Word) (w : InstWord) (id : Nat)

@[simp] theorem issued_op1 :
    (issued regs pc w id).op1 = if w.flags.readsRs1 then regs.read w.rs1 else 0 := rfl

@[simp] theorem issued_op2 :
    (issued regs pc w id).op2 = if w.flags.readsRs2 then regs.read w.rs2 else 0 := rfl

/-- What an issued instruction has from the registers is its operands. -/
theorem issued_congr {regs regs' : Registers}
    (h1 : w.flags.readsRs1 = true → regs'.read w.rs1 = regs.read w.rs1)
    (h2 : w.flags.readsRs2 = true → regs'.read w.rs2 = regs.read w.rs2) :
    issued regs' pc w id = issued regs pc w id := by
  have e1 : (issued regs' pc w id).op1 = (issued regs pc w id).op1 := by
    simp only [issued_op1]; split <;> simp [*]
  have e2 : (issued regs' pc w id).op2 = (issued regs pc w id).op2 := by
    simp only [issued_op2]; split <;> simp [*]
  calc issued regs' pc w id
      = { issued regs pc w id with
          op1 := (issued regs' pc w id).op1, op2 := (issued regs' pc w id).op2 } := rfl
    _ = issued regs pc w id := by rw [e1, e2]

/-- An instruction that ignores a producer can be issued before or after it. -/
theorem issued_commit_of_ignores (hrd : producer.WritesRegister)
    (hi : (issued regs pc w id).Ignores producer) :
    issued (producer.commit regs) pc w id = issued regs pc w id := by
  apply issued_congr
  all_goals
    intro hr
    rw [read_commit hrd, if_neg]
    intro hd
    have := hi _ hd
    simp [reads, hr] at this

/-- Forwarding from the instruction that retires is reading the registers after it. -/
theorem forward_writeback (next : Word) (hrd : producer.WritesRegister) :
    { issued regs pc w id with nextPc := next }.forward producer .writeback =
      { issued (producer.commit regs) pc w id with nextPc := next } := by
  have hf : producer.forwards? .writeback = producer.dest := by simp [forwards?]
  unfold forward
  rw [hf]
  cases h : producer.dest with
  | none => rw [commit_of_dest_none h]
  | some rd =>
    have e1 : (issued (producer.commit regs) pc w id).op1 =
        if w.flags.readsRs1 && w.rs1 = rd then producer.result else (issued regs pc w id).op1 := by
      simp only [issued_op1, read_commit hrd, h, Option.some.injEq]
      by_cases hr : w.flags.readsRs1 <;> by_cases hd : rd = w.rs1 <;> simp [hr, hd, eq_comm]
    have e2 : (issued (producer.commit regs) pc w id).op2 =
        if w.flags.readsRs2 && w.rs2 = rd then producer.result else (issued regs pc w id).op2 := by
      simp only [issued_op2, read_commit hrd, h, Option.some.injEq]
      by_cases hr : w.flags.readsRs2 <;> by_cases hd : rd = w.rs2 <;> simp [hr, hd, eq_comm]
    calc _ = { issued (producer.commit regs) pc w id with
            nextPc := next
            op1 := if w.flags.readsRs1 && w.rs1 = rd then producer.result
              else (issued regs pc w id).op1
            op2 := if w.flags.readsRs2 && w.rs2 = rd then producer.result
              else (issued regs pc w id).op2 } := rfl
      _ = _ := by rw [← e1, ← e2]

/-- So is forwarding from the instruction that has just passed memory, unless it is a load. -/
theorem forward_memory_of_not_load (next : Word) (hrd : producer.WritesRegister)
    (hl : producer.isLoad = false) :
    { issued regs pc w id with nextPc := next }.forward producer .memory =
      { issued (producer.commit regs) pc w id with nextPc := next } := by
  rw [← forward_writeback _ _ _ _ _ hrd]
  simp [forward, forwards?, hl]

theorem forward_memory_of_load (i : Instruction) (hl : producer.isLoad = true) :
    i.forward producer .memory = i := by simp [forward, forwards?, hl]

/-- A load in the memory stage that the instruction ignores makes no difference either. -/
theorem forward_memory (next : Word) (hrd : producer.WritesRegister)
    (hl : producer.isLoad = true → (issued regs pc w id).Ignores producer) :
    { issued regs pc w id with nextPc := next }.forward producer .memory =
      { issued (producer.commit regs) pc w id with nextPc := next } := by
  cases h : producer.isLoad with
  | false => exact forward_memory_of_not_load _ _ _ _ _ hrd h
  | true => rw [forward_memory_of_load _ h, issued_commit_of_ignores _ _ _ _ hrd (hl h)]

end Issued

/-- A branch or jump accesses no memory. -/
theorem not_control_of_access (regs : Registers) (pc : Word) {w : InstWord} (id : Nat)
    (h : (w.flags.readsMem || w.flags.writesMem) = true) :
    (issued regs pc w id).isControl = false := by
  have hl : w.flags.legal = true := by
    rcases (Bool.or_eq_true _ _).mp h with h | h
    · exact w.legal_of_readsMem h
    · exact w.legal_of_writesMem h
  have key : ∀ o : Opcode, Opcode.ofCode? w.opcode = some o → o ≠ .opImm →
      (o.flags.readsMem || o.flags.writesMem) = true :=
    fun o ho hn => InstWord.flags_of_legal ho hn hl ▸ h
  simp only [isControl, issued_flags, hl, issued_class, Bool.true_and, Bool.or_eq_false_iff]
  refine ⟨⟨?_, ?_⟩, ?_⟩
  all_goals
    apply decide_eq_false
    intro e
    exact absurd (key _ e (by simp)) (by simp [Opcode.flags])

/-- Nor is a word that is no instruction, or the halt word, a branch or jump. -/
theorem not_control_of_inert (regs : Registers) (pc : Word) {w : InstWord} (id : Nat)
    (h : w.flags.legal = false ∨ w.flags.halt = true) :
    (issued regs pc w id).isControl = false := by
  apply Bool.eq_false_iff.mpr
  intro hc
  simp only [isControl, issued_flags, issued_class, Bool.and_eq_true, Bool.or_eq_true] at hc
  obtain ⟨hl, hc⟩ := hc
  have hh : w.flags.halt = true := h.resolve_left (by simp [hl])
  rcases hc with (hc | hc) | hc
  all_goals
    rw [InstWord.flags_of_legal (of_decide_eq_true hc) (by decide) hl] at hh
    cases hh

/-- The data of a store that its producer has written already is not refreshed to anything new. -/
theorem forwardStoreData_prepared_commit (regs : Registers) (pc : Word) (w : InstWord) (id : Nat)
    (hrd : producer.WritesRegister) :
    (prepared (producer.commit regs) pc w id).forwardStoreData producer =
      prepared (producer.commit regs) pc w id := by
  unfold forwardStoreData
  split
  next h =>
    simp only [acceptsStoreData, isStore, Bool.and_eq_true, decide_eq_true_eq] at h
    have hs : w.flags.writesMem = true := by simpa using h.1.2.2
    have hd : producer.dest = some w.rs2 := h.2.trans (by rw [prepared, withAddress_eq]; rfl)
    have hop : (prepared (producer.commit regs) pc w id).op2 = producer.result := by
      rw [prepared, withAddress_eq]
      change (issued (producer.commit regs) pc w id).op2 = _
      rw [issued_op2, if_pos (w.flags_store hs).2.1, read_commit hrd, if_pos hd]
    rw [← hop]
  next => rfl

/-- A store whose address does not depend on the producer gets its data from it in time. -/
theorem forwardStoreData_prepared_of_store (regs : Registers) (pc : Word) {w : InstWord} (id : Nat)
    (hrd : producer.WritesRegister) (hs : w.flags.writesMem = true)
    (h1 : w.flags.readsRs1 = true → producer.dest ≠ some w.rs1) :
    (prepared regs pc w id).forwardStoreData producer =
      prepared (producer.commit regs) pc w id := by
  obtain ⟨-, hr2, -, ha⟩ := w.flags_store hs
  have hop1 : (issued (producer.commit regs) pc w id).op1 = (issued regs pc w id).op1 := by
    simp only [issued_op1]
    split
    next hr => rw [read_commit hrd, if_neg (h1 hr)]
    next => rfl
  have shape : ∀ regs, prepared regs pc w id =
      { decode pc w with
        id
        op1 := (issued regs pc w id).op1
        op2 := (issued regs pc w id).op2
        memAddress := (issued regs pc w id).op1 + w.immediate } := by
    intro regs
    have hn := successor_of_not_control (not_control_of_access regs pc (w := w) id (by simp [hs]))
    rw [prepared, withAddress_eq]
    simp only [withResults, effectiveAddress, issued_flags, hs, ha, hn, Bool.or_true, if_true,
      Bool.false_eq_true, if_false]
    rfl
  have hop2 : (issued (producer.commit regs) pc w id).op2 =
      if producer.dest = some w.rs2 then producer.result else (issued regs pc w id).op2 := by
    simp only [issued_op2, hr2, if_true, read_commit hrd]
  have hacc : (prepared regs pc w id).acceptsStoreData producer = true ↔
      producer.dest = some w.rs2 := by
    have hr : (prepared regs pc w id).rs2 = w.rs2 := by rw [shape]; rfl
    simp [acceptsStoreData, isStore, isLive, hs, w.legal_of_writesMem hs, hr]
  have hcommit : prepared (producer.commit regs) pc w id =
      { prepared regs pc w id with op2 := (issued (producer.commit regs) pc w id).op2 } := by
    rw [shape, shape regs, hop1]
  unfold forwardStoreData
  rw [hcommit, hop2]
  by_cases hd : producer.dest = some w.rs2
  · rw [if_pos (hacc.2 hd), if_pos hd]
  · rw [if_neg (mt hacc.1 hd), if_neg hd, shape]

/-- The decoded instruction does not have to wait for a load that has just passed memory: it does
not read what the load writes, or is a store that reads it as data only. -/
def NoHazard (w : InstWord) (producer : Instruction) : Prop :=
  producer.isLoad = true → ∀ rd, producer.dest = some rd →
    if w.flags.writesMem then w.flags.readsRs1 = true → w.rs1 ≠ rd
    else ((w.flags.readsRs1 && w.rs1 = rd) || (w.flags.readsRs2 && w.rs2 = rd)) = false

/-- An instruction that leaves decode without a hazard has, when its store data has been refreshed,
all the operands it would have been issued with after the producer. -/
theorem forwardStoreData_executed (regs : Registers) (pc : Word) (w : InstWord) (id : Nat)
    (next : Word) (hrd : producer.WritesRegister) (hz : NoHazard w producer)
    (hn : next = (issued (producer.commit regs) pc w id).successor)
    (hs : (issued (producer.commit regs) pc w id).successor = (issued regs pc w id).successor) :
    ({ issued regs pc w id with nextPc := next }.forward producer .memory).executed.forwardStoreData
        producer = prepared (producer.commit regs) pc w id := by
  subst hn
  cases hl : producer.isLoad with
  | false =>
    rw [forward_memory_of_not_load _ _ _ _ _ hrd hl, executed_issued]
    exact forwardStoreData_prepared_commit regs pc w id hrd
  | true =>
    rw [forward_memory_of_load _ hl, hs, executed_issued]
    cases hw : w.flags.writesMem with
    | true =>
      apply forwardStoreData_prepared_of_store regs pc id hrd hw
      intro hr hd
      have := hz hl _ hd
      rw [if_pos hw] at this
      exact this hr rfl
    | false =>
      have hi : (issued regs pc w id).Ignores producer := by
        intro rd hd
        have := hz hl _ hd
        rw [if_neg (by simp [hw])] at this
        exact this
      have hp : prepared (producer.commit regs) pc w id = prepared regs pc w id := by
        unfold prepared; rw [issued_commit_of_ignores _ _ _ _ hrd hi]
      rw [hp]
      simp [forwardStoreData, acceptsStoreData, isStore, hw]

end FiveStage.Instruction
