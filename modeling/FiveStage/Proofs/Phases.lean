import FiveStage.Proofs.Simulation

/-! # What the phases of a cycle count

The counters and the caches of a machine are touched in a few places only. The lemmas go through the
phases of a moving cycle one by one: what the first half counts (`counters_retireHalf`), the ways in
which the second half can go (`Course`), and what each of them counts. -/

namespace FiveStage

open Instruction

section Stages

variable (m : Machine) (i : Instruction)

theorem counters_writebackStage :
    (m.writebackStage i).counters =
      { m.counters with instructions := m.counters.instructions + i.isLive.toNat } := by
  unfold Machine.writebackStage
  split <;> simp [*]

@[simp] theorem icache_writebackStage : (m.writebackStage i).icache = m.icache := by
  unfold Machine.writebackStage; split <;> rfl
@[simp] theorem dcache_writebackStage : (m.writebackStage i).dcache = m.dcache := by
  unfold Machine.writebackStage; split <;> rfl
@[simp] theorem icache_memoryStage : (m.memoryStage i).2.icache = m.icache := by
  unfold Machine.memoryStage; (repeat' split) <;> rfl

end Stages

namespace Core

variable (c : Core) (i : Instruction)

/-- The access of the executed instruction fails. -/
def faults : Bool := c.writebackPhase.accessPhase.pipeline.slots.memory.memFault

/-- A failing access raises the first exception, and the instruction in decode is thrown away. -/
def flushes : Bool := c.faults && !c.pipeline.control.exceptionRaised

theorem countSquash_eq :
    c.countSquash i =
      { c with
        machine.counters :=
          { c.machine.counters with
            squashed := c.machine.counters.squashed + i.isFetched.toNat } } := by
  unfold countSquash
  split <;> simp [*]

/-- The first half of a cycle, by whether the access fails and whether an exception was raised
before. -/
theorem retireHalf_cases :
    c.faults = false ∧ c.retireHalf = c.writebackPhase.accessPhase ∨
      c.faults = true ∧ c.flushes = false ∧
        c.retireHalf = c.writebackPhase.accessPhase.raise ∨
      c.faults = true ∧ c.flushes = true ∧
        c.retireHalf = c.writebackPhase.accessPhase.raise.flushDecode := by
  have e := c.retireHalf_eq
  unfold flushes faults
  cases hf : c.writebackPhase.accessPhase.pipeline.slots.memory.memFault with
  | false =>
    rw [hf, if_neg (by simp)] at e
    exact .inl ⟨rfl, e⟩
  | true =>
    rw [hf, if_pos rfl] at e
    cases hr : c.pipeline.control.exceptionRaised with
    | true =>
      rw [hr, if_pos rfl] at e
      exact .inr (.inl ⟨rfl, rfl, e⟩)
    | false =>
      rw [hr, if_neg (by simp)] at e
      exact .inr (.inr ⟨rfl, rfl, e⟩)

theorem counters_accessPhase :
    c.writebackPhase.accessPhase.machine.counters =
      { c.machine.counters with
        instructions :=
          c.machine.counters.instructions + c.pipeline.slots.memory.isLive.toNat } :=
  (counters_memoryStage _ _).trans (counters_writebackStage _ _)

/-- What the first half of a cycle counts. -/
theorem counters_retireHalf :
    c.retireHalf.machine.counters =
      { c.machine.counters with
        instructions := c.machine.counters.instructions + c.pipeline.slots.memory.isLive.toNat
        exceptions := c.machine.counters.exceptions + c.faults.toNat
        squashed :=
          c.machine.counters.squashed
            + (c.flushes && c.pipeline.slots.decode.isFetched).toNat } := by
  have ha := c.counters_accessPhase
  rcases c.retireHalf_cases with ⟨hf, e⟩ | ⟨hf, hx, e⟩ | ⟨hf, hx, e⟩
  · rw [e, ha, hf, flushes, hf]
    simp
  · rw [e, machine_raise, Machine.countException, ha, hf, hx]
    simp
  · rw [e, machine_flushDecode, countSquash_eq, machine_raise, slots_raise,
      Machine.countException, ha, hf, hx]
    rfl

/-- What else the first half of a cycle leaves alone. -/
theorem machine_retireHalf :
    c.retireHalf.machine.icache = c.machine.icache ∧
      c.retireHalf.machine.pc = c.machine.pc ∧
      c.retireHalf.machine.nextId = c.machine.nextId ∧
      c.retireHalf.machine.dcache = c.writebackPhase.accessPhase.machine.dcache := by
  have h1 : c.writebackPhase.accessPhase.machine.icache = c.machine.icache :=
    (icache_memoryStage _ _).trans (icache_writebackStage _ _)
  have h2 : c.writebackPhase.accessPhase.machine.pc = c.machine.pc :=
    (pc_memoryStage _ _).trans (pc_writebackStage _ _)
  have h3 : c.writebackPhase.accessPhase.machine.nextId = c.machine.nextId :=
    (nextId_memoryStage _ _).trans (nextId_writebackStage _ _)
  rcases c.retireHalf_cases with ⟨-, e⟩ | ⟨-, -, e⟩ | ⟨-, -, e⟩
  · rw [e]
    exact ⟨h1, h2, h3, rfl⟩
  · rw [e, machine_raise]
    exact ⟨h1, h2, h3, rfl⟩
  · rw [e, machine_flushDecode, countSquash_eq, machine_raise]
    exact ⟨h1, h2, h3, rfl⟩

/-- The slots after the first half of a cycle. -/
theorem slots_retireHalf :
    c.retireHalf.pipeline.slots =
      { c.pipeline.slots with
        writeback := c.pipeline.slots.memory
        memory := c.writebackPhase.accessPhase.pipeline.slots.memory
        decode :=
          if c.flushes then discard c.pipeline.slots.decode else c.pipeline.slots.decode } := by
  rcases c.retireHalf_cases with ⟨hf, e⟩ | ⟨-, hx, e⟩ | ⟨-, hx, e⟩
  · rw [e, flushes, hf]
    rfl
  · rw [e, hx, slots_raise]
    rfl
  · rw [e, hx, pipeline_flushDecode, slots_raise]
    rfl

/-- The first exception throws away the instruction in decode, so that nothing holds decode up, and
fetch turns to the handler. -/
theorem retireHalf_of_flushes (h : c.flushes = true) :
    c.retireHalf.pipeline.control =
        { c.writebackPhase.accessPhase.pipeline.control with
          controlPending := false, redirect := some exceptionHandler, exceptionRaised := true } ∧
      c.retireHalf.pipeline.slots.decode.isLive = false ∧ c.retireHalf.hold? = none := by
  obtain ⟨hf, hr⟩ := Bool.and_eq_true_iff.mp h
  rw [Bool.not_eq_true'] at hr
  have hcontrol : c.retireHalf.pipeline.control =
      { c.writebackPhase.accessPhase.pipeline.control with
        controlPending := false, redirect := some exceptionHandler, exceptionRaised := true } := by
    rcases c.retireHalf_cases with ⟨hf', -⟩ | ⟨-, hx, -⟩ | ⟨-, -, e⟩
    · exact absurd (hf.symm.trans hf') (by decide)
    · exact absurd (h.symm.trans hx) (by decide)
    · rw [e, pipeline_flushDecode, raise_first c.writebackPhase.accessPhase hr]
  have hdead : c.retireHalf.pipeline.slots.decode.isLive = false := by
    rw [slots_retireHalf, h]
    exact discard_not_live _
  refine ⟨hcontrol, hdead, ?_⟩
  simp [hold?, hcontrol, loadUseHazard, hdead]

/-- Without a first exception the first half of a cycle leaves the instruction in decode alone, and
of the control state it changes the stall of the data cache only. -/
theorem retireHalf_of_not_flushes (h : c.flushes = false) :
    c.retireHalf.pipeline.slots.decode = c.pipeline.slots.decode ∧
      ∃ memStall, c.retireHalf.pipeline.control = { c.pipeline.control with memStall } := by
  refine ⟨by rw [slots_retireHalf, h, if_neg (by decide)], ?_⟩
  rcases c.retireHalf_cases with ⟨-, e⟩ | ⟨hf, -, e⟩ | ⟨-, hx, -⟩
  · rw [e]
    exact ⟨_, rfl⟩
  · -- a second exception ends the run and changes nothing else
    have hr : c.pipeline.control.exceptionRaised = true := by simpa [flushes, hf] using h
    rw [e, raise_again c.writebackPhase.accessPhase hr]
    exact ⟨_, rfl⟩
  · exact absurd (h.symm.trans hx) (by decide)

/-- What the second half of a cycle does: the decoded instruction waits, decode waits for fetch, or
every stage moves on. -/
theorem issueHalf_cases :
    (∃ k, c.hold? = some k ∧ c.issueHalf = (c.holdPhase k).resolvePhase.fetchWait) ∨
      c.hold? = none ∧ c.fetchReady = false ∧ c.issueHalf = c.executePhase.awaitFetch.fetchWait ∨
      c.hold? = none ∧ c.fetchReady = true ∧
        c.issueHalf = c.executePhase.decodePhase.resolvePhase.fetchPhase := by
  unfold issueHalf
  cases hk : c.hold? with
  | some k => exact .inl ⟨k, rfl, rfl⟩
  | none =>
    have hready : c.executePhase.fetchReady = c.fetchReady := rfl
    dsimp only
    rw [hready]
    cases hr : c.fetchReady with
    | true => exact .inr (.inr ⟨rfl, rfl, rfl⟩)
    | false =>
      refine .inr (.inl ⟨rfl, rfl, ?_⟩)
      simp only [fetchReady, Bool.or_eq_false_iff, decide_eq_false_iff_not] at hr
      have hred : c.pipeline.control.redirect = none := by simpa using hr.1
      have hstall : 0 < c.executePhase.pipeline.control.fetchStall := Nat.pos_of_ne_zero hr.2
      have hdec : c.executePhase.decodePhase = c.executePhase.awaitFetch := by
        unfold decodePhase
        rw [show c.executePhase.pipeline.control.redirect = none from hred]
        exact if_pos hstall
      have hres : c.executePhase.awaitFetch.resolvePhase = c.executePhase.awaitFetch := by
        refine if_neg ?_
        have : c.executePhase.awaitFetch.pipeline.control.controlPending = false :=
          (MidCycle.not_held hk).1
        simp [this]
      rw [if_neg (by simp), hdec, hres]

/-- What decode takes over when it moves on: nothing that is on the path of the program, nothing at
all, or the fetched word. -/
theorem decodePhase_cases (hready : c.fetchReady = true)
    (hf : c.pipeline.slots.fetch.isFetched = true ∨ c.pipeline.slots.fetch = .idle) :
    (∃ target, c.pipeline.control.redirect = some target ∧
        c.decodePhase = c.redirectPhase target) ∨
      c.pipeline.control.redirect = none ∧ c.pipeline.control.fetchStall = 0 ∧
        c.pipeline.slots.fetch = .idle ∧ c.decodePhase = c.setDecode .idle ∨
      c.pipeline.control.redirect = none ∧ c.pipeline.control.fetchStall = 0 ∧
        c.pipeline.slots.fetch.isFetched = true ∧
        c.decodePhase =
          ({ c with machine := { c.machine with nextId := c.machine.nextId + 1 } }.dispatch
            c.decodedWord).setDecode c.decodedWord := by
  cases hr : c.pipeline.control.redirect with
  | some target =>
    refine .inl ⟨target, rfl, ?_⟩
    unfold decodePhase
    rw [hr]
  | none =>
    have hs : c.pipeline.control.fetchStall = 0 := by simpa [fetchReady, hr] using hready
    rcases hf with hf | hf
    · exact .inr (.inr ⟨rfl, hs, hf, decodePhase_of_fetched hr hs hf⟩)
    · exact .inr (.inl ⟨rfl, hs, hf, decodePhase_of_idle hr hs hf⟩)

@[simp] theorem machine_resolvePhase : c.resolvePhase.machine = c.machine := by
  obtain ⟨_, _, _, e⟩ := resolvePhase_shape c
  rw [e]

theorem machine_dispatch :
    (c.dispatch i).machine = if i.flags.legal then c.machine else c.machine.countException := by
  unfold dispatch
  cases hl : i.flags.legal with
  | false => simp
  | true =>
    simp only [Bool.not_true, Bool.false_eq_true, if_false, if_true]
    (repeat' split) <;> rfl

theorem redirectPhase_eq (target : Word) :
    c.redirectPhase target =
      { machine :=
          { c.machine with
            pc := target
            counters :=
              { c.machine.counters with
                squashed :=
                  c.machine.counters.squashed + c.pipeline.slots.fetch.isFetched.toNat } }
        pipeline :=
          { c.pipeline with
            slots := { c.pipeline.slots with decode := discard c.pipeline.slots.fetch }
            control :=
              { c.pipeline.control with
                redirect := none
                fetchStall := 0
                fetchHalted := false } } } := by
  rw [redirectPhase, countSquash_eq]

theorem resolvePhase_of_not_pending (h : c.pipeline.control.controlPending = false) :
    c.resolvePhase = c := if_neg (by simp [h])

/-- The ways the second half of a cycle can go. -/
inductive Course : Prop
  /-- the instruction in decode waits -/
  | held (k : Hold) (hold : c.hold? = some k)
      (issue : c.issueHalf = (c.holdPhase k).resolvePhase.fetchWait)
  /-- decode waits for fetch -/
  | awaiting (hold : c.hold? = none) (redirect : c.pipeline.control.redirect = none)
      (stall : 0 < c.pipeline.control.fetchStall)
      (issue : c.issueHalf = c.executePhase.awaitFetch.fetchWait)
  /-- fetch turns to another address -/
  | turning (target : Word) (hold : c.hold? = none)
      (redirect : c.pipeline.control.redirect = some target)
      (issue : c.issueHalf = (c.executePhase.redirectPhase target).fetchPhase)
  /-- there is nothing to decode -/
  | vacant (hold : c.hold? = none) (redirect : c.pipeline.control.redirect = none)
      (stall : c.pipeline.control.fetchStall = 0) (slot : c.pipeline.slots.fetch = .idle)
      (issue : c.issueHalf = (c.executePhase.setDecode .idle).fetchPhase)
  /-- decode takes over the fetched word -/
  | taking (hold : c.hold? = none) (redirect : c.pipeline.control.redirect = none)
      (stall : c.pipeline.control.fetchStall = 0) (slot : c.pipeline.slots.fetch.isFetched = true)
      (decode : c.executePhase.decodePhase =
        ({ c.executePhase with
          machine := { c.machine with nextId := c.machine.nextId + 1 } }.dispatch
            c.decodedWord).setDecode c.decodedWord)
      (issue : c.issueHalf = c.executePhase.decodePhase.resolvePhase.fetchPhase)

/-- The second half of a cycle goes one of these ways. -/
theorem course (hf : c.pipeline.slots.fetch.isFetched = true ∨ c.pipeline.slots.fetch = .idle) :
    c.Course := by
  rcases c.issueHalf_cases with ⟨k, hk, e⟩ | ⟨hk, hready, e⟩ | ⟨hk, hready, e⟩
  · exact .held k hk e
  · simp only [fetchReady, Bool.or_eq_false_iff, decide_eq_false_iff_not] at hready
    exact .awaiting hk (by simpa using hready.1) (Nat.pos_of_ne_zero hready.2) e
  · have hp : c.pipeline.control.controlPending = false := (MidCycle.not_held hk).1
    rcases c.executePhase.decodePhase_cases hready hf with
      ⟨target, hr, ed⟩ | ⟨hr, hs, hi, ed⟩ | ⟨hr, hs, hi, ed⟩
    · rw [ed, resolvePhase_of_not_pending _ (by rw [redirectPhase_eq]; exact hp)] at e
      exact .turning target hk hr e
    · rw [ed, resolvePhase_of_not_pending (c.executePhase.setDecode .idle) hp] at e
      exact .vacant hk hr hs hi e
    · exact .taking hk hr hs hi ed e

section Retiring

variable {c : Core}

/-- What a cycle retires is what memory held when it moved. -/
theorem retiring_of_moving (hs : c.pipeline.status = .success)
    (hm : c.pipeline.control.memStall = 0) :
    c.retiring = [c.pipeline.slots.memory].filter (·.isLive) := by
  have hw : c.tick.pipeline.slots.writeback = c.pipeline.slots.memory := by
    rw [tick_of_moving hs hm, movingCycle, (issueHalf_slots _).1, slots_retireHalf]
    rfl
  rw [retiring, hs, hw]
  cases h : c.pipeline.slots.memory.isLive <;> simp [h, RunStatus.isTerminal]

theorem retiring_of_frozen (hs : c.pipeline.status = .success)
    (hm : 0 < c.pipeline.control.memStall) : c.retiring = [] := by
  have hw : c.tick.pipeline.slots.writeback = .bubble := by
    rw [tick_of_frozen hs hm]
    rfl
  rw [retiring, hs, hw]
  rfl

end Retiring

end Core

end FiveStage
