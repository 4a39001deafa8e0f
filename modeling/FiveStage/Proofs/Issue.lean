import FiveStage.Proofs.Steering

/-! # Issue

Behind the first half of a cycle the decoded instruction waits (`MidCycle.holdPhase`) or executes
(`MidCycle.executePhase`). An instruction that waits takes over the result that retires; one that
executes has all its operands when it reaches memory (`Decoded.executed`). -/

namespace FiveStage

open Instruction

/-- What waiting changes. -/
theorem holdPhase_shape (c : Core) (k : Hold) : ∃ counters,
    counters.instructions = c.machine.counters.instructions ∧
    counters.exceptions = c.machine.counters.exceptions ∧
    c.holdPhase k =
      { machine := { c.machine with counters }
        pipeline :=
          { c.pipeline with
            slots :=
              { c.pipeline.slots with
                decode := c.pipeline.slots.decode.forward c.pipeline.slots.writeback .writeback
                execute := .bubble } } } := by
  refine ⟨(c.countHold k).machine.counters, ?_⟩
  cases k with
  | loadUse => exact ⟨rfl, rfl, rfl⟩
  | control => exact ⟨rfl, rfl, rfl⟩

/-- Forwarding changes nothing but the operands. -/
theorem forward_shape (i producer : Instruction) (source : ForwardSource) :
    i.forward producer source =
      { i with
        op1 := (i.forward producer source).op1
        op2 := (i.forward producer source).op2 } := by
  unfold forward
  (repeat' split) <;> rfl

section Forwarded

variable (i producer : Instruction) (source : ForwardSource)

@[simp] theorem isLive_forward : (i.forward producer source).isLive = i.isLive := by
  rw [forward_shape]; rfl
@[simp] theorem raw_forward : (i.forward producer source).raw = i.raw := by rw [forward_shape]
@[simp] theorem id_forward : (i.forward producer source).id = i.id := by rw [forward_shape]
@[simp] theorem pc_forward : (i.forward producer source).pc = i.pc := by rw [forward_shape]
@[simp] theorem memFault_forward : (i.forward producer source).memFault = i.memFault := by
  rw [forward_shape]
@[simp] theorem needsOperands_forward :
    (i.forward producer source).needsOperands = i.needsOperands := by
  rw [forward_shape]; rfl

end Forwarded

/-- Only a branch or jump can wait for operands. -/
theorem isControl_of_needsOperands {i : Instruction} (h : i.needsOperands = true) :
    i.isControl = true := by
  simp only [needsOperands, Bool.and_eq_true, Bool.or_eq_true] at h
  obtain ⟨hl, hc⟩ := h
  rcases hc with hc | hc <;> simp [isControl, hl, hc]

theorem FrontEnd.live_of_pending {t : Sequential} {c : Core} (h : FrontEnd t c)
    (hp : c.pipeline.control.controlPending = true) :
    c.pipeline.slots.decode.isLive = true := by
  cases h with
  | waiting _ _ _ _ _ _ h7 => exact h7
  | starting _ h2 => rw [h2] at hp; cases hp
  | following _ h2 => rw [h2] at hp; cases hp
  | steering _ h2 => rw [h2] at hp; cases hp
  | resting _ h2 => rw [h2] at hp; cases hp

section ExecutedFields

variable (i : Instruction)

theorem executed_shape : i.executed =
    { i with arithResult := i.executed.arithResult, memAddress := i.executed.memAddress } := by
  unfold executed
  split
  · rw [withAddress_eq]
  · rfl

@[simp] theorem isLive_executed : i.executed.isLive = i.isLive := by rw [executed_shape]; rfl
@[simp] theorem raw_executed : i.executed.raw = i.raw := by rw [executed_shape]
@[simp] theorem id_executed : i.executed.id = i.id := by rw [executed_shape]
@[simp] theorem memFault_executed : i.executed.memFault = i.memFault := by rw [executed_shape]

end ExecutedFields

/-- A jump that needs no operands reads no register. -/
theorem reads_of_jal {regs : Registers} {pc : Word} {w : InstWord} {id : Nat}
    (hc : (issued regs pc w id).isControl = true)
    (hn : (issued regs pc w id).needsOperands = false) :
    w.flags.readsRs1 = false ∧ w.flags.readsRs2 = false := by
  simp only [isControl, needsOperands, issued_flags, issued_class, Bool.and_eq_true,
    Bool.or_eq_true, Bool.and_eq_false_iff, Bool.or_eq_false_iff] at hc hn
  obtain ⟨hl, hc⟩ := hc
  have hn := hn.resolve_left (by simp [hl])
  have hjal : Opcode.ofCode? w.opcode = some .jal := by
    rcases hc with (hc | hc) | hc
    · rw [hn.1] at hc; cases hc
    · exact of_decide_eq_true hc
    · rw [hn.2] at hc; cases hc
  rw [InstWord.flags_of_legal hjal (by decide) hl]
  exact ⟨rfl, rfl⟩

/-- A decoded instruction that does not have to wait reads nothing that a load has just read, except
as the data it stores. -/
theorem Decoded.noHazard {regs : Registers} {pc : Word} {producer i : Instruction}
    (h : Decoded regs pc false producer i)
    (hz : loadUseHazard producer i = false) : NoHazard i.raw producer := by
  have hready := h.ready rfl
  obtain ⟨w, id, next, rfl⟩ := h.exists_form
  show NoHazard w producer
  intro hl rd hd
  cases hc : (issued regs pc w id).isControl with
  | true =>
    have hs : ¬ w.flags.writesMem = true := by
      intro hs
      rw [not_control_of_access _ _ _ (by simp [hs])] at hc
      cases hc
    rw [if_neg hs]
    cases hn : (issued regs pc w id).needsOperands with
    | true => exact hready hn rd hd
    | false =>
      obtain ⟨h1, h2⟩ := reads_of_jal hc hn
      simp [h1, h2]
  | false =>
    have hz : (if (w.flags.legal && w.flags.writesMem) = true then
        w.flags.readsRs1 && decide (w.rs1 = rd) else (issued regs pc w id).reads rd) = false := by
      rw [loadUseHazard, hd] at hz
      have : (true && !(issued regs pc w id).isControl && producer.isLoad && _) = false := hz
      rw [hc, hl] at this
      exact this
    cases hw : w.flags.writesMem with
    | true =>
      rw [w.legal_of_writesMem hw, hw, Bool.true_and, if_pos rfl] at hz
      rw [if_pos rfl]
      intro hr
      rw [hr, Bool.true_and] at hz
      exact of_decide_eq_false hz
    | false =>
      rw [hw, Bool.and_false, if_neg (by simp)] at hz
      rw [if_neg (by simp)]
      exact hz

/-- A decoded instruction that moves on has all its operands once it has been executed. -/
theorem Decoded.executed {regs : Registers} {pc : Word} {producer i : Instruction}
    (h : Decoded regs pc false producer i) (hrd : producer.WritesRegister)
    (hz : loadUseHazard producer i = false) :
    (i.forward producer .memory).executed.forwardStoreData producer =
      Instruction.prepared (producer.commit regs) pc i.raw i.id := by
  have hz := h.noHazard hz
  have hready := h.ready rfl
  have hnext := h.nextPc
  obtain ⟨w, id, next, rfl⟩ := h.exists_form
  have hs : (issued (producer.commit regs) pc w id).successor =
      (issued regs pc w id).successor := by
    cases hn : (issued regs pc w id).needsOperands with
    | true => rw [issued_commit_of_ignores _ _ _ _ hrd (hready hn)]
    | false => exact successor_issued_congr _ _ _ _ _ hn
  exact forwardStoreData_executed regs pc w id next hrd hz
    ((hnext.trans (if_neg (by simp))).trans hs.symm) hs

/-- The pipeline when the decoded instruction has been executed, and decode is free to move on. -/
structure Executing (s : Sequential) (c : Core) : Prop where
  regs : c.machine.regs = s.regs
  memory : c.machine.memory = (c.memoryPoint s).memory
  instructions : c.machine.counters.instructions = s.retired
  exceptions : c.machine.counters.exceptions = c.pipeline.control.exceptionRaised.toNat
  status : c.pipeline.status = s.status
  writes : c.pipeline.slots.writeback.WritesRegister
  committed : c.pipeline.slots.writeback.commit s.regs = s.regs
  completed : c.pipeline.slots.memory.isLive = true → Completed s c.pipeline.slots.memory
  executed : c.pipeline.slots.execute.isLive = true →
    Executed (c.memoryPoint s) c.pipeline.slots.memory c.pipeline.slots.execute
  executeClean : c.pipeline.slots.execute.memFault = false
  raised : c.pipeline.control.exceptionRaised = (c.executePoint s).trapped
  numbering : (c.executePoint s).trapped = false → c.machine.nextId = (c.executePoint s).retired
  pending : c.pipeline.control.controlPending = false
  near : c.machine.memory = (c.executePoint s).memory ∨
    c.machine.memory = (c.executePoint s).recent
  steered : c.pipeline.control.redirect.isSome = true →
    (c.executePoint s).recent = c.machine.memory
  frontEnd : FrontEnd (c.executePoint s) c

theorem executePoint_executePhase (s : Sequential) (c : Core) :
    c.executePhase.executePoint s = (c.memoryPoint s).foresee c.pipeline.slots.decode := by
  show (c.memoryPoint s).foresee ((c.pipeline.slots.decode.forward c.pipeline.slots.writeback
    .writeback).forward c.pipeline.slots.memory .memory).executed = _
  exact Sequential.foresee_congr _ (by simp) (by simp) (by simp)

namespace MidCycle

variable {s : Sequential} {c : Core}

/-- An instruction that has to wait is one, and does not need operands unless it is a branch or jump
that waits for them already. -/
theorem held (h : MidCycle s c) {k : Hold} (hk : c.hold? = some k) :
    c.pipeline.slots.decode.isLive = true ∧
      (c.pipeline.control.controlPending = false →
        c.pipeline.slots.decode.needsOperands = false) := by
  unfold Core.hold? at hk
  cases hp : c.pipeline.control.controlPending with
  | true => exact ⟨h.frontEnd.live_of_pending hp, nofun⟩
  | false =>
    rw [hp, if_neg (by simp)] at hk
    split at hk
    next hz =>
      simp only [loadUseHazard, Bool.and_eq_true, Bool.not_eq_true'] at hz
      obtain ⟨⟨⟨hl, hc⟩, -⟩, -⟩ := hz
      refine ⟨hl, ?_⟩
      intro _
      apply Bool.eq_false_iff.mpr
      intro hn
      rw [isControl_of_needsOperands hn] at hc
      cases hc
    next => cases hk

/-- The instruction that waits has taken over the result that retires. -/
theorem holdPhase (h : MidCycle s c) {k : Hold} (hk : c.hold? = some k) :
    Settled s (c.holdPhase k) ∧
      FrontEnd ((c.holdPhase k).decodePoint s) (c.holdPhase k) := by
  obtain ⟨hd, hn⟩ := h.held hk
  obtain ⟨counters, hinstructions, hexceptions, e⟩ := holdPhase_shape c k
  have hacc := h.accepted hd
  have hdec := h.decoded hd
  rw [e]
  -- the bubble in the execute slot changes none of the states
  have pd : (c.memoryPoint s).foresee
      (c.pipeline.slots.decode.forward c.pipeline.slots.writeback .writeback) =
      (c.memoryPoint s).foresee c.pipeline.slots.decode :=
    Sequential.foresee_congr _ (isLive_forward _ _ _) (raw_forward _ _ _) (id_forward _ _ _)
  refine ⟨⟨?_, h.writes, h.committed, fun _ => (isLive_forward _ _ _).trans hd,
    fun _ => (isLive_forward _ _ _).trans hd⟩, ?_⟩
  · exact {
      regs := h.regs
      memory := h.memory
      instructions := hinstructions.trans h.instructions
      exceptions := hexceptions.trans h.exceptions
      status := h.status
      completed := h.completed
      executed := nofun
      executeClean := rfl
      accepted := by
        intro _
        show (c.memoryPoint s).Accepts _
        exact ⟨hacc.running, by simpa using hacc.sees, by simpa using hacc.numbered⟩
      decoded := by
        intro _
        show Decoded (if c.pipeline.control.controlPending || !needsOperands _ then _ else _)
          (c.memoryPoint s).pc _ _ (c.pipeline.slots.decode.forward _ _)
        have hregs : (c.pipeline.control.controlPending ||
            !(c.pipeline.slots.decode.forward c.pipeline.slots.writeback
              .writeback).needsOperands) = true := by
          cases hp : c.pipeline.control.controlPending with
          | true => rfl
          | false => rw [needsOperands_forward, hn hp]; rfl
        rw [hregs]
        exact ⟨hdec.form, hdec.nextPc, hdec.waits, fun _ _ => nofun⟩
      decodeClean := (memFault_forward _ _ _).trans h.decodeClean
      raised := h.raised.trans (congrArg Sequential.trapped pd.symm)
      numbering := by
        intro ht
        change Sequential.trapped (Sequential.foresee _ _) = false at ht
        show _ = Sequential.retired (Sequential.foresee _ _)
        exact (pd ▸ h.numbering (pd ▸ ht) :) }
  · show FrontEnd ((c.memoryPoint s).foresee _) _
    rw [pd]
    refine h.frontEnd.congr rfl rfl rfl rfl rfl (isLive_forward _ _ _) (pc_forward _ _ _)
      fun hm _ _ => ⟨hm, rfl, rfl⟩

theorem not_held (hk : c.hold? = none) :
    c.pipeline.control.controlPending = false ∧
      loadUseHazard c.pipeline.slots.memory c.pipeline.slots.decode = false := by
  unfold Core.hold? at hk
  split at hk
  next => cases hk
  next hp =>
    split at hk
    next => cases hk
    next hz => exact ⟨by simpa using hp, by simpa using hz⟩

/-- The decoded instruction executes. -/
theorem executePhase (h : MidCycle s c) (hk : c.hold? = none) : Executing s c.executePhase := by
  obtain ⟨hp, hz⟩ := not_held hk
  have hslot : c.executePhase.pipeline.slots.execute =
      ((c.pipeline.slots.decode.forward c.pipeline.slots.writeback .writeback).forward
        c.pipeline.slots.memory .memory).executed := rfl
  have pe := executePoint_executePhase s c
  exact {
    regs := h.regs
    memory := h.memory
    instructions := h.instructions
    exceptions := h.exceptions
    status := h.status
    writes := h.writes
    committed := h.committed
    completed := h.completed
    executed := by
      intro hx
      have hd : c.pipeline.slots.decode.isLive = true := by rw [hslot] at hx; simpa using hx
      have hacc := h.accepted hd
      have hdec := h.decoded hd
      rw [hp] at hdec
      rw [hslot]
      show Executed (c.memoryPoint s) c.pipeline.slots.memory _
      refine ⟨⟨hacc.running, by simpa using hacc.sees, by simpa using hacc.numbered⟩, ?_⟩
      refine (hdec.executed (writesRegister_of_completed h.completed) ?_).trans ?_
      · rw [forward_shape]; exact hz
      · show Instruction.prepared _ _ _ _ = Instruction.prepared (s.pass _).regs _ _ _
        rw [Sequential.regs_pass h.completed]
        simp
    executeClean := by rw [hslot]; simpa using h.decodeClean
    raised := by rw [pe]; exact h.raised
    numbering := by rw [pe]; exact h.numbering
    pending := hp
    near := by
      rw [pe]
      cases hd : c.pipeline.slots.decode.isLive with
      | false => exact .inl (by rw [Sequential.foresee_of_not_live _ hd]; exact h.memory)
      | true => exact .inr (by rw [Sequential.recent_foresee, if_pos hd]; exact h.memory)
    steered := by
      intro hr
      rw [pe]
      rcases h.steered hr with hd | hm
      · rw [Sequential.recent_foresee, if_pos hd]; exact h.memory.symm
      · exact hm
    frontEnd := by
      rw [pe]
      refine h.frontEnd.congr rfl rfl rfl rfl rfl rfl rfl fun hm _ hd => ⟨hm, ?_, rfl⟩
      rw [hslot]
      simpa using hd }

end MidCycle

end FiveStage
