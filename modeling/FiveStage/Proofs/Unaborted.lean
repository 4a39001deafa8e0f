import FiveStage.Proofs.Cycle
import FiveStage.Proofs.GuardedCycle
import FiveStage.Proofs.Phases
import FiveStage.Proofs.Refinement
import FiveStage.Simulator.Basic

/-! # Runs without an abort

Each phase of a cycle keeps a core sound, and so do whole cycles, functional steps and resets
(`Core.Sound.act`). A core that a simulator is built with is sound, so that no interleaving of them
aborts (`runs_unaborted`). -/

namespace FiveStage

theorem Instruction.size_stored (i : Instruction) (m : Memory) : (i.stored m).size = m.size := by
  unfold stored
  split
  · exact Memory.size_write _ _ _
  · rfl

section Destinations

variable (m : Machine) (i producer : Instruction)

theorem Instruction.rd_forward (source : ForwardSource) :
    (i.forward producer source).rd = i.rd := by
  rw [forward_shape]

/-- The destination of the decoded instruction after both of its refreshes. -/
theorem Core.rd_refreshed (c : Core) :
    ((c.pipeline.slots.decode.forward c.pipeline.slots.writeback .writeback).forward
      c.pipeline.slots.memory .memory).rd = c.pipeline.slots.decode.rd :=
  (Instruction.rd_forward _ _ _).trans (Instruction.rd_forward _ _ _)

theorem Instruction.rd_forwardStoreData : (i.forwardStoreData producer).rd = i.rd := by
  unfold forwardStoreData
  split <;> rfl

theorem Instruction.rd_executed : i.executed.rd = i.rd := by rw [executed_shape]

theorem Machine.rd_memoryStage : (m.memoryStage i).1.rd = i.rd := by
  unfold memoryStage
  (repeat' split) <;> rfl

theorem Machine.rd_decodeStage (h : i.rd < registerCount) :
    (m.decodeStage i).1.rd < registerCount := by
  cases hi : i.isFetched with
  | true =>
    obtain ⟨-, next, e, -⟩ := decodeStage_eq m hi
    rw [e]
    exact Instruction.rd_lt i.raw
  | false => rwa [decodeStage, hi, if_neg Bool.false_ne_true]

theorem Core.rd_discard {i : Instruction} (h : i.rd < registerCount) :
    (discard i).rd < registerCount := by
  unfold discard
  split
  · exact Nat.two_pow_pos 5
  · exact h

end Destinations

namespace Machine.Sound

variable {m : Machine} (i : Instruction)

theorem complete (h : m.Sound) : (m.complete i).2.Sound := by
  unfold Machine.complete
  split
  · split
    · exact ⟨h.icache, h.dcache, (Instruction.size_stored _ _).trans_lt h.memory⟩
    · exact ⟨h.icache, h.dcache, h.memory⟩
  · exact ⟨h.icache, h.dcache, h.memory⟩

theorem step (h : m.Sound) : m.step.2.Sound := by
  have hcounted : m.counted.Sound := ⟨h.icache, h.dcache, h.memory⟩
  unfold Machine.step
  simp only
  split
  · exact ⟨h.icache, h.dcache, h.memory⟩
  split
  · exact hcounted
  · exact hcounted.complete _

theorem writebackStage (h : m.Sound) : (m.writebackStage i).Sound := by
  unfold Machine.writebackStage
  split
  · exact ⟨h.icache, h.dcache, h.memory⟩
  · exact h

theorem memoryStage (h : m.Sound) : (m.memoryStage i).2.Sound := by
  unfold Machine.memoryStage
  split
  · split
    · exact ⟨h.icache, h.dcache.access _, (Instruction.size_stored _ _).trans_lt h.memory⟩
    · exact h
  · exact h

theorem decodeStage (h : m.Sound) : (m.decodeStage i).2.Sound := by
  unfold Machine.decodeStage
  split
  · exact ⟨h.icache, h.dcache, h.memory⟩
  · exact h

end Machine.Sound

namespace Core.Sound

variable {c : Core}

/-- What a core counts has no part in it. -/
theorem recount (h : c.Sound) (counters : Counters) :
    { c with machine.counters := counters }.Sound :=
  ⟨⟨h.machine.icache, h.machine.dcache, h.machine.memory⟩, h.fetch, h.decode, h.execute, h.memory⟩

theorem raise (h : c.Sound) : c.raise.Sound := by
  have hcount := h.recount c.machine.countException.counters
  unfold Core.raise
  simp only
  split <;> exact ⟨hcount.machine, h.fetch, h.decode, h.execute, h.memory⟩

theorem countSquash (h : c.Sound) (i : Instruction) : (c.countSquash i).Sound := by
  rw [countSquash_eq]
  exact h.recount _

theorem flushDecode (h : c.Sound) : c.flushDecode.Sound := by
  have hcount := h.countSquash c.pipeline.slots.decode
  exact ⟨hcount.machine, hcount.fetch, rd_discard h.decode, hcount.execute, hcount.memory⟩

theorem frozenCycle (h : c.Sound) : c.frozenCycle.Sound :=
  ⟨(h.recount _).machine, h.fetch, h.decode, h.execute, h.memory⟩

theorem writebackPhase (h : c.Sound) : c.writebackPhase.Sound :=
  ⟨h.machine.writebackStage _, h.fetch, h.decode, h.execute, h.memory⟩

theorem accessPhase (h : c.Sound) : c.accessPhase.Sound := by
  have hrd := (c.machine.rd_memoryStage _).trans
    (c.pipeline.slots.execute.rd_forwardStoreData c.pipeline.slots.writeback)
  exact ⟨h.machine.memoryStage _, h.fetch, h.decode, h.execute, hrd.trans_lt h.execute⟩

theorem memoryPhase (h : c.Sound) : c.memoryPhase.Sound := by
  have hacc := h.accessPhase
  rw [memoryPhase_eq]
  split
  · split
    · exact hacc.raise
    · exact hacc.raise.flushDecode
  · exact hacc

theorem holdPhase (h : c.Sound) (k : Hold) : (c.holdPhase k).Sound := by
  obtain ⟨counters, -, -, e⟩ := holdPhase_shape c k
  rw [e]
  exact ⟨(h.recount counters).machine, h.fetch, (Instruction.rd_forward _ _ _).trans_lt h.decode,
    Nat.two_pow_pos 5, h.memory⟩

theorem executePhase (h : c.Sound) : c.executePhase.Sound := by
  have hrd := (Instruction.rd_executed _).trans (c.rd_refreshed)
  exact ⟨h.machine, h.fetch, h.decode, hrd.trans_lt h.decode, h.memory⟩

theorem dispatch (h : c.Sound) (i : Instruction) : (c.dispatch i).Sound := by
  unfold Core.dispatch
  split
  · exact h.raise
  · (repeat' split) <;> exact ⟨h.machine, h.fetch, h.decode, h.execute, h.memory⟩

theorem decodePhase (h : c.Sound) : c.decodePhase.Sound := by
  unfold Core.decodePhase
  split
  next target _ =>
    have hcount := h.countSquash c.pipeline.slots.fetch
    exact ⟨⟨hcount.machine.icache, hcount.machine.dcache, hcount.machine.memory⟩, hcount.fetch,
      rd_discard h.fetch, hcount.execute, hcount.memory⟩
  next =>
    split
    · exact ⟨(h.recount _).machine, h.fetch, Nat.two_pow_pos 5, h.execute, h.memory⟩
    split
    · exact ⟨h.machine, h.fetch, Nat.two_pow_pos 5, h.execute, h.memory⟩
    · have hmoved : { c with machine := (c.machine.decodeStage c.pipeline.slots.fetch).2 }.Sound :=
        ⟨h.machine.decodeStage _, h.fetch, h.decode, h.execute, h.memory⟩
      have hdispatched := hmoved.dispatch (c.machine.decodeStage c.pipeline.slots.fetch).1
      exact ⟨hdispatched.machine, hdispatched.fetch, Machine.rd_decodeStage _ _ h.fetch,
        hdispatched.execute, hdispatched.memory⟩

theorem resolvePhase (h : c.Sound) : c.resolvePhase.Sound := by
  unfold Core.resolvePhase
  simp only
  split
  · exact ⟨h.machine, h.fetch, c.rd_refreshed.trans_lt h.decode, h.execute, h.memory⟩
  · exact h

theorem fetchPhase (h : c.Sound) : c.fetchPhase.Sound := by
  unfold Core.fetchPhase
  simp only
  split
  · exact ⟨h.machine, Nat.two_pow_pos 5, h.decode, h.execute, h.memory⟩
  · exact ⟨⟨h.machine.icache.access _, h.machine.dcache, h.machine.memory⟩, Nat.two_pow_pos 5,
      h.decode, h.execute, h.memory⟩

theorem fetchWait (h : c.Sound) : c.fetchWait.Sound :=
  ⟨h.machine, h.fetch, h.decode, h.execute, h.memory⟩

theorem issueHalf (h : c.Sound) : c.issueHalf.Sound := by
  unfold Core.issueHalf
  split
  next k _ => exact (h.holdPhase k).resolvePhase.fetchWait
  next =>
    have hissued := h.executePhase.decodePhase.resolvePhase
    simp only
    split
    · exact hissued.fetchPhase
    · exact hissued.fetchWait

theorem tick (h : c.Sound) : c.tick.Sound := by
  have hcount : c.countCycle.Sound := h.recount _
  unfold Core.tick
  split
  · exact h
  · simp only
    split
    · exact hcount.frozenCycle
    · exact hcount.writebackPhase.memoryPhase.issueHalf

theorem reset (h : c.Sound) : c.reset.Sound :=
  ⟨h.machine, Nat.two_pow_pos 5, Nat.two_pow_pos 5, Nat.two_pow_pos 5, Nat.two_pow_pos 5⟩

end Core.Sound

/-- What may be asked of a core. -/
inductive Action
  /-- one instruction of the functional model -/
  | step
  /-- one clock cycle of the pipeline -/
  | tick
  /-- an empty pipeline -/
  | reset
  deriving DecidableEq, Repr

/-- The core after an action. -/
def Core.act (c : Core) : Action → Core
  | .step => { c with machine := c.machine.step.2 }
  | .tick => c.tick
  | .reset => c.reset

/-- The core after a sequence of actions. -/
def Core.perform (c : Core) (actions : List Action) : Core := actions.foldl act c

theorem Core.Sound.act {c : Core} (h : c.Sound) (a : Action) : (c.act a).Sound := by
  cases a with
  | step => exact ⟨h.machine.step, h.fetch, h.decode, h.execute, h.memory⟩
  | tick => exact h.tick
  | reset => exact h.reset

namespace Guarded

variable {c : Core}

theorem issueHalf_eq (h : c.Sound) : issueHalf c = .ok c.issueHalf := by
  unfold issueHalf Core.issueHalf
  cases c.hold? with
  | some k => exact fetchWait_eq _
  | none =>
    have hissued := h.executePhase.decodePhase.resolvePhase
    rw [executePhase_eq, ok_bind]
    simp only [decodePhase_eq, ok_bind]
    split
    · exact fetchPhase_eq hissued.machine
    · exact fetchWait_eq _

/-- A clock cycle does not abort. -/
theorem tick_eq (h : c.Sound) : tick c = .ok c.tick := by
  have hcount : c.countCycle.Sound := h.recount _
  unfold tick Core.tick
  split
  · rfl
  simp only
  split
  next hstall => exact frozenCycle_eq hstall
  next =>
    rw [writebackPhase_eq hcount, ok_bind, memoryPhase_eq hcount.writebackPhase, ok_bind]
    exact issueHalf_eq hcount.writebackPhase.memoryPhase

/-- The core after an action. -/
def act (c : Core) : Action → Guarded Core
  | .step => do
    let (_, machine) ← step c.machine
    return { c with machine }
  | .tick => tick c
  | .reset => .ok c.reset

/-- The core after a sequence of actions, unless one of them aborts. -/
def perform (c : Core) (actions : List Action) : Guarded Core := actions.foldlM act c

theorem act_eq (h : c.Sound) (a : Action) : act c a = .ok (c.act a) := by
  cases a with
  | step => rw [act, step_eq h.machine]; rfl
  | tick => exact tick_eq h
  | reset => rfl

theorem perform_eq (h : c.Sound) (actions : List Action) :
    perform c actions = .ok (c.perform actions) := by
  -- soundness is what the first action hands on to the others
  induction actions generalizing c with
  | nil => rfl
  | cons a actions ih =>
    rw [perform, List.foldlM_cons, act_eq h, ok_bind]
    exact ih (h.act a)

end Guarded

/-- A machine of an accepted configuration is sound when it is built. -/
theorem Machine.sound_ofConfig {c : Config} (hc : c.validate = .ok ()) {memory : Memory}
    (hm : memory.size < 2 ^ 64) (regs : Registers) : (ofConfig c memory regs).Sound := by
  obtain ⟨hi, hd⟩ := Config.validate_caches hc
  exact ⟨Geometry.sound_of_validate hi rfl Array.size_replicate,
    Geometry.sound_of_validate hd rfl Array.size_replicate, hm⟩

/-- The simulator of an accepted configuration can be built, and from there on nothing aborts: with
any registers and any start, each sequence of functional steps, clock cycles and resets ends, with
every index, slice, copy, shift, bit field and decrement guarded, where it ends without the guards.
The size of a memory is a number of 64 bits. -/
theorem runs_unaborted (c : Config) (hc : c.validate = .ok ()) (memory : Memory)
    (hm : memory.size < 2 ^ 64) :
    ∃ s, Simulator.build c memory = .ok s ∧
      ∀ (regs : Registers) (pc : Word) (actions : List Action),
        Guarded.perform { s.core with machine := { s.core.machine with regs, pc } } actions =
          .ok (Core.perform { s.core with machine := { s.core.machine with regs, pc } }
            actions) := by
  have hbuild : Simulator.build c memory = .ok
      { core := { machine := Machine.ofConfig c memory .zero }, mode := c.mode
        dumpStart := c.dumpStart, dumpEnd := c.dumpEnd } := by
    rw [Simulator.build, hc, Machine.build_ofConfig hc]
  refine ⟨_, hbuild, fun regs pc actions => Guarded.perform_eq ?_ actions⟩
  have hsound := Machine.sound_ofConfig hc hm regs
  exact ⟨⟨hsound.icache, hsound.dcache, hsound.memory⟩, Nat.two_pow_pos 5, Nat.two_pow_pos 5,
    Nat.two_pow_pos 5, Nat.two_pow_pos 5⟩

/-- A functional step between two cycles and a reset, from the last word of the address space, which
is not mapped and behind which the program counter wraps around. -/
theorem runs_unaborted_storing :
    ({} : Config).validate = .ok () ∧ Machine.storing.memory.size < 2 ^ 64 ∧
      ∃ s, Simulator.build {} Machine.storing.memory = .ok s ∧
        Guarded.perform
            { s.core with
              machine := { s.core.machine with regs := .zero, pc := 0xFFFFFFFFFFFFFFFC } }
            [.tick, .tick, .step, .tick, .reset, .tick] =
          .ok (Core.perform
            { s.core with
              machine := { s.core.machine with regs := .zero, pc := 0xFFFFFFFFFFFFFFFC } }
            [.tick, .tick, .step, .tick, .reset, .tick]) := by
  have hm : Machine.storing.memory.size < 2 ^ 64 := by decide +kernel
  obtain ⟨s, hs, h⟩ := runs_unaborted {} rfl Machine.storing.memory hm
  exact ⟨rfl, hm, s, hs, h _ _ _⟩

end FiveStage
