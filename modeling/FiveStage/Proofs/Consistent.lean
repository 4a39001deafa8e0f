import FiveStage.Pipeline.Tick
import FiveStage.Proofs.Sequential

/-! # Consistent pipelines

The invariant of the pipeline. A pipeline is consistent with a sequential state when its registers
are those of the state, and every slot, from memory to fetch, holds the next instruction in program
order as far as its stage has come. The states between the slots are the *points* of the pipeline:
an access that is still to come counts as one that succeeds, and only the memory stage corrects
this. -/

namespace FiveStage

open Instruction

namespace Core

/-- The state behind the instruction in the memory slot. -/
def memoryPoint (c : Core) (s : Sequential) : Sequential := s.pass c.pipeline.slots.memory

/-- The state behind the instruction in the execute slot. -/
def executePoint (c : Core) (s : Sequential) : Sequential :=
  (c.memoryPoint s).foresee c.pipeline.slots.execute

/-- The state behind the instruction in the decode slot, from which fetch goes on. -/
def decodePoint (c : Core) (s : Sequential) : Sequential :=
  (c.executePoint s).foresee c.pipeline.slots.decode

end Core

/-- A decoded instruction with the operands a register file holds. While it waits its successor is
not known; a branch or jump that waits no longer has operands that its producer does not change. -/
structure Decoded (regs : Registers) (pc : Word) (pending : Bool) (producer i : Instruction) :
    Prop where
  form : i = { issued regs pc i.raw i.id with nextPc := i.nextPc }
  nextPc : i.nextPc = if pending then i.fallThrough else i.successor
  waits : pending = true → i.needsOperands = true
  ready : pending = false → i.needsOperands = true → i.Ignores producer

namespace Decoded

variable {regs : Registers} {pc : Word} {pending : Bool} {producer i : Instruction}

/-- But for its successor the instruction is the issued one. -/
theorem exists_form (h : Decoded regs pc pending producer i) :
    ∃ w id next, i = { issued regs pc w id with nextPc := next } := ⟨_, _, _, h.form⟩

theorem pc_eq (h : Decoded regs pc pending producer i) : i.pc = pc := by
  obtain ⟨_, _, _, rfl⟩ := h.exists_form
  rfl

theorem flags_eq (h : Decoded regs pc pending producer i) : i.flags = i.raw.flags := by
  obtain ⟨_, _, _, rfl⟩ := h.exists_form
  rfl

theorem successor_eq (h : Decoded regs pc pending producer i) :
    i.successor = (issued regs pc i.raw i.id).successor := by
  obtain ⟨_, _, _, rfl⟩ := h.exists_form
  rfl

theorem needsOperands_eq (h : Decoded regs pc pending producer i) :
    i.needsOperands = (issued regs pc i.raw i.id).needsOperands := by
  obtain ⟨_, _, _, rfl⟩ := h.exists_form
  rfl

theorem isControl_eq (h : Decoded regs pc pending producer i) :
    i.isControl = (issued regs pc i.raw i.id).isControl := by
  obtain ⟨_, _, _, rfl⟩ := h.exists_form
  rfl

theorem ignores (h : Decoded regs pc pending producer i) {p : Instruction} (hi : i.Ignores p) :
    (issued regs pc i.raw i.id).Ignores p := by
  obtain ⟨_, _, _, rfl⟩ := h.exists_form
  exact hi

end Decoded

/-- What fetch does, behind the state from which it goes on. -/
inductive FrontEnd (s : Sequential) (c : Core) : Prop
  /-- nothing has been fetched yet -/
  | starting (slot : c.pipeline.slots.fetch = .idle)
      (pending : c.pipeline.control.controlPending = false)
      (redirect : c.pipeline.control.redirect = none)
      (halted : c.pipeline.control.fetchHalted = false) (running : s.halted = false)
      (pc : c.machine.pc = s.pc) (recent : s.recent = c.machine.memory)
      (memory : c.pipeline.slots.memory.isLive = false)
      (execute : c.pipeline.slots.execute.isLive = false)
      (decode : c.pipeline.slots.decode.isLive = false)
  /-- the fetched word is that of the next instruction -/
  | following (slot : c.pipeline.slots.fetch.isFetched = true)
      (pending : c.pipeline.control.controlPending = false)
      (redirect : c.pipeline.control.redirect = none)
      (halted : c.pipeline.control.fetchHalted = false) (running : s.halted = false)
      (pc : c.machine.pc = c.pipeline.slots.fetch.fallThrough)
      (address : c.pipeline.slots.fetch.pc = s.pc)
      (sees : s.Sees c.pipeline.slots.fetch.pc c.pipeline.slots.fetch.raw)
  /-- the fetched word is that behind a branch or jump that waits -/
  | waiting (slot : c.pipeline.slots.fetch.isFetched = true)
      (pending : c.pipeline.control.controlPending = true)
      (redirect : c.pipeline.control.redirect = none)
      (halted : c.pipeline.control.fetchHalted = false) (running : s.halted = false)
      (pc : c.machine.pc = c.pipeline.slots.fetch.fallThrough)
      (decode : c.pipeline.slots.decode.isLive = true)
      (address : c.pipeline.slots.fetch.pc = c.pipeline.slots.decode.fallThrough)
      (sees : s.Sees c.pipeline.slots.fetch.pc c.pipeline.slots.fetch.raw)
  /-- the fetched word is on a wrong path -/
  | steering (slot : c.pipeline.slots.fetch.isFetched = true ∨ c.pipeline.slots.fetch = .idle)
      (pending : c.pipeline.control.controlPending = false)
      (redirect : c.pipeline.control.redirect = some s.pc) (running : s.halted = false)
  /-- the halt word has been decoded -/
  | resting (slot : c.pipeline.slots.fetch = .idle)
      (pending : c.pipeline.control.controlPending = false)
      (redirect : c.pipeline.control.redirect = none)
      (halted : c.pipeline.control.fetchHalted = true) (stopped : s.halted = true)

/-- How a run stands in a state. -/
def Sequential.status (s : Sequential) : RunStatus :=
  if s.halted then if s.trapped then .exception else .halt else .success

/-- The instruction that has accessed memory is complete and comes next. -/
structure Completed (s : Sequential) (i : Instruction) : Prop where
  accepts : s.Accepts i
  record : i = s.record i.raw i.id

/-- The executed instruction comes next, and has all its operands once a store has been given the
data that the instruction before it brings. -/
structure Executed (s : Sequential) (producer i : Instruction) : Prop where
  accepts : s.Accepts i
  prepared : i.forwardStoreData producer = Instruction.prepared s.regs s.pc i.raw i.id

/-- The slots from memory to decode hold the instructions that follow a state in program order. -/
structure BackEnd (s : Sequential) (c : Core) : Prop where
  regs : c.machine.regs = s.regs
  memory : c.machine.memory = (c.memoryPoint s).memory
  instructions : c.machine.counters.instructions = s.retired
  exceptions : c.machine.counters.exceptions = c.pipeline.control.exceptionRaised.toNat
  status : c.pipeline.status = s.status
  completed : c.pipeline.slots.memory.isLive = true → Completed s c.pipeline.slots.memory
  executed : c.pipeline.slots.execute.isLive = true →
    Executed (c.memoryPoint s) c.pipeline.slots.memory c.pipeline.slots.execute
  executeClean : c.pipeline.slots.execute.memFault = false
  accepted : c.pipeline.slots.decode.isLive = true →
    (c.executePoint s).Accepts c.pipeline.slots.decode
  decoded : c.pipeline.slots.decode.isLive = true →
    Decoded
      (if c.pipeline.control.controlPending || !c.pipeline.slots.decode.needsOperands then s.regs
        else (c.memoryPoint s).regs)
      (c.executePoint s).pc c.pipeline.control.controlPending c.pipeline.slots.execute
      c.pipeline.slots.decode
  decodeClean : c.pipeline.slots.decode.memFault = false
  raised : c.pipeline.control.exceptionRaised = (c.decodePoint s).trapped
  numbering : (c.decodePoint s).trapped = false → c.machine.nextId = (c.decodePoint s).retired

/-- The pipeline holds the instructions that follow a state in program order, and fetch is on its
way to the next one. -/
structure Consistent (s : Sequential) (c : Core) : Prop extends BackEnd s c where
  frontEnd : FrontEnd (c.decodePoint s) c
  steered : c.pipeline.control.redirect.isSome = true → c.pipeline.slots.decode.isLive = true

/-- The run has been ended by a second exception. -/
structure Core.EndedTwice (c : Core) : Prop where
  status : c.pipeline.status = .exception
  exceptions : 2 ≤ c.machine.counters.exceptions

/-- What a consistent back end is made of. -/
theorem BackEnd.congr {s : Sequential} {c c' : Core} (h : BackEnd s c)
    (hm : c'.pipeline.slots.memory = c.pipeline.slots.memory)
    (he : c'.pipeline.slots.execute = c.pipeline.slots.execute)
    (hd : c'.pipeline.slots.decode = c.pipeline.slots.decode)
    (hstatus : c'.pipeline.status = c.pipeline.status)
    (hpending : c'.pipeline.control.controlPending = c.pipeline.control.controlPending)
    (hraised : c'.pipeline.control.exceptionRaised = c.pipeline.control.exceptionRaised)
    (hregs : c'.machine.regs = c.machine.regs) (hmemory : c'.machine.memory = c.machine.memory)
    (hinstructions : c'.machine.counters.instructions = c.machine.counters.instructions)
    (hexceptions : c'.machine.counters.exceptions = c.machine.counters.exceptions)
    (hid : c'.machine.nextId = c.machine.nextId) : BackEnd s c' := by
  have pm : c'.memoryPoint s = c.memoryPoint s := congrArg s.pass hm
  have pe : c'.executePoint s = c.executePoint s := by
    unfold Core.executePoint; rw [pm, he]
  have pd : c'.decodePoint s = c.decodePoint s := by
    unfold Core.decodePoint; rw [pe, hd]
  exact {
    regs := hregs.trans h.regs
    memory := by rw [hmemory, pm]; exact h.memory
    instructions := hinstructions.trans h.instructions
    exceptions := by rw [hexceptions, hraised]; exact h.exceptions
    status := hstatus.trans h.status
    completed := by rw [hm]; exact h.completed
    executed := by rw [he, hm, pm]; exact h.executed
    executeClean := by rw [he]; exact h.executeClean
    accepted := by rw [hd, pe]; exact h.accepted
    decoded := by rw [hd, he, pe, pm, hpending]; exact h.decoded
    decodeClean := by rw [hd]; exact h.decodeClean
    raised := by rw [hraised, pd]; exact h.raised
    numbering := by rw [hid, pd]; exact h.numbering }

/-- The fetch slot holds a fetched word, or has never been filled. -/
theorem FrontEnd.slot {s : Sequential} {c : Core} (h : FrontEnd s c) :
    c.pipeline.slots.fetch.isFetched = true ∨ c.pipeline.slots.fetch = .idle := by
  cases h with
  | starting h1 => exact .inr h1
  | following h1 => exact .inl h1
  | waiting h1 => exact .inl h1
  | steering h1 => exact h1
  | resting h1 => exact .inr h1

theorem FrontEnd.congr {s : Sequential} {c c' : Core} (h : FrontEnd s c)
    (hf : c'.pipeline.slots.fetch = c.pipeline.slots.fetch)
    (hp : c'.pipeline.control.controlPending = c.pipeline.control.controlPending)
    (hr : c'.pipeline.control.redirect = c.pipeline.control.redirect)
    (hh : c'.pipeline.control.fetchHalted = c.pipeline.control.fetchHalted)
    (hpc : c'.machine.pc = c.machine.pc)
    (hdl : c'.pipeline.slots.decode.isLive = c.pipeline.slots.decode.isLive)
    (hdp : c'.pipeline.slots.decode.pc = c.pipeline.slots.decode.pc)
    (hstart : c.pipeline.slots.memory.isLive = false → c.pipeline.slots.execute.isLive = false →
      c.pipeline.slots.decode.isLive = false → c'.pipeline.slots.memory.isLive = false ∧
        c'.pipeline.slots.execute.isLive = false ∧ c'.machine.memory = c.machine.memory) :
    FrontEnd s c' := by
  have hfall : c'.pipeline.slots.decode.fallThrough = c.pipeline.slots.decode.fallThrough :=
    congrArg (· + 4) hdp
  cases h with
  | starting h1 h2 h3 h4 h5 h6 h7 h8 h9 h10 =>
    obtain ⟨e1, e2, e3⟩ := hstart h8 h9 h10
    exact .starting (hf ▸ h1) (hp.trans h2) (hr.trans h3) (hh.trans h4) h5 (hpc.trans h6)
      (h7.trans e3.symm) e1 e2 (hdl.trans h10)
  | following h1 h2 h3 h4 h5 h6 h7 h8 =>
    exact .following (hf ▸ h1) (hp.trans h2) (hr.trans h3) (hh.trans h4) h5
      (by rw [hpc, h6, hf]) (hf ▸ h7) (hf ▸ h8)
  | waiting h1 h2 h3 h4 h5 h6 h7 h8 h9 =>
    exact .waiting (hf ▸ h1) (hp.trans h2) (hr.trans h3) (hh.trans h4) h5 (by rw [hpc, h6, hf])
      (hdl.trans h7) (by rw [hf, h8, hfall]) (hf ▸ h9)
  | steering h1 h2 h3 h4 => exact .steering (hf ▸ h1) (hp.trans h2) (hr.trans h3) h4
  | resting h1 h2 h3 h4 h5 =>
    exact .resting (hf ▸ h1) (hp.trans h2) (hr.trans h3) (hh.trans h4) h5

/-- An empty pipeline is consistent with the state of its machine. -/
theorem Consistent.start (m : Machine) (hc : m.counters = {}) (hid : m.nextId = 0) :
    Consistent (Sequential.start m) { machine := m } where
  regs := rfl
  memory := rfl
  instructions := by simp [hc, Sequential.start]
  exceptions := by simp [hc]
  status := rfl
  completed := by intro h; cases h
  executed := by intro h; cases h
  executeClean := rfl
  accepted := by intro h; cases h
  decoded := by intro h; cases h
  decodeClean := rfl
  raised := rfl
  numbering := fun _ => hid
  frontEnd := .starting rfl rfl rfl rfl rfl rfl rfl rfl rfl rfl
  steered := by intro h; cases h

/-- A frozen cycle keeps the pipeline consistent with the same state. -/
theorem Consistent.frozenCycle {s : Sequential} {c : Core} (h : Consistent s c) :
    Consistent s c.frozenCycle := by
  refine ⟨h.toBackEnd.congr rfl rfl rfl rfl rfl rfl rfl rfl rfl rfl rfl, ?_, h.steered⟩
  exact h.frontEnd.congr rfl rfl rfl rfl rfl rfl rfl fun hm he _ => ⟨hm, he, rfl⟩

end FiveStage
