import FiveStage.Proofs.Functional
import FiveStage.Proofs.Progress

/-! # The pipeline refines the functional model

A run that meets no exception, and whose stores stay clear of the two instructions behind them, is
the same in both models (`pipeline_refines_functional`): the pipeline retires the records of the
functional steps one by one, halts when the functional run halts, and leaves the same machine
behind. -/

namespace FiveStage

open Instruction

/-- A machine that has just been built from an accepted configuration, with any registers. -/
inductive Machine.Fresh : Machine → Prop
  | intro {c : Config} {memory : Memory} {m : Machine} (regs : Registers)
      (accepted : c.validate = .ok ()) (built : Machine.build c memory = .ok m) :
      Fresh { m with regs }

namespace Machine

/-- The machine that a configuration builds for a memory, with given registers. -/
def ofConfig (c : Config) (memory : Memory) (regs : Registers) : Machine :=
  { regs
    pc := c.startPc
    memory
    icache :=
      { name := Config.instructionCacheName
        geometry := c.instructionCache
        sets := Array.replicate c.instructionCache.sets { ways := c.instructionCache.ways } }
    dcache :=
      { name := Config.dataCacheName
        geometry := c.dataCache
        sets := Array.replicate c.dataCache.sets { ways := c.dataCache.ways } } }

/-- Every accepted configuration can be built, whatever its program. -/
theorem build_ofConfig {c : Config} (h : c.validate = .ok ()) (memory : Memory) :
    Machine.build c memory = .ok (ofConfig c memory .zero) := by
  unfold Config.validate at h
  split at h
  next => cases h
  next hi =>
    split at h
    next => cases h
    next hd =>
      unfold build Cache.build
      simp only [hi, hd]
      rfl

theorem fresh_ofConfig {c : Config} (h : c.validate = .ok ()) (memory : Memory)
    (regs : Registers) : (ofConfig c memory regs).Fresh :=
  .intro regs h (build_ofConfig h memory)

theorem Fresh.eq_ofConfig {m : Machine} (h : m.Fresh) :
    ∃ c, c.validate = .ok () ∧ m = ofConfig c m.memory m.regs := by
  obtain ⟨regs, hc, hb⟩ := h
  rw [build_ofConfig hc] at hb
  cases hb
  exact ⟨_, hc, rfl⟩

/-- A machine that has just been built has counted nothing. -/
theorem Fresh.stats {m : Machine} (h : m.Fresh) : m.stats = {} := by
  obtain ⟨c, -, e⟩ := h.eq_ofConfig
  rw [e]
  rfl

theorem Fresh.counters {m : Machine} (h : m.Fresh) : m.counters = {} ∧ m.nextId = 0 := by
  obtain ⟨c, -, e⟩ := h.eq_ofConfig
  rw [e]
  exact ⟨rfl, rfl⟩

end Machine

/-- The core that runs a machine from an empty pipeline. -/
def Machine.core (m : Machine) : Core := { machine := m }

theorem Machine.Fresh.consistent {m : Machine} (h : m.Fresh) :
    Consistent (Sequential.start m) m.core :=
  .start m h.counters.1 h.counters.2

/-- The states that functional steps without faults lead to. -/
theorem Machine.FaultFree.peaceful {m : Machine} (hfree : m.FaultFree) (hsafe : m.FetchSafe)
    (hid : m.nextId = 0) : Sequential.Peaceful fun s => s.InStep m where
  next := by
    intro s i h hacc
    rw [h.record_eq hsafe hid hacc]
    exact h.next hacc.running (hfree.not_failed (h.follows.running hacc.running))
  untrapped := fun _ h => h.untrapped

/-- After any number of cycles, the pipeline of a run without faults is where some number of
functional steps lead. -/
theorem Machine.Fresh.reached {m : Machine} (h : m.Fresh) (hfree : m.FaultFree)
    (hsafe : m.FetchSafe) (n : Nat) :
    ∃ s, Reached (Sequential.start m) m.core n s ∧ s.InStep m :=
  (hfree.peaceful hsafe h.counters.2).reached (.start m) h.consistent n

namespace Sequential

/-- A state that has met the halt word is behind the last functional step, and a state that has not
is not. -/
theorem Follows.halted_iff {s : Sequential} {m : Machine} {n k : Nat} (h : s.Follows m n)
    (hr : m.Reaches k) (he : (m.executed k).stepEnd = .halted) : s.halted = true ↔ n = k + 1 := by
  have unique : ∀ j, m.Reaches j → (m.executed j).stepEnd = .halted → j = k := by
    intro j hj hend
    rcases Nat.lt_trichotomy j k with hlt | heq | hgt
    · have := hr j hlt
      rw [hend] at this
      cases this
    · exact heq
    · have := hj k hgt
      rw [he] at this
      cases this
  constructor
  · intro hh
    obtain ⟨j, rfl, hj, hend⟩ := h.stopped hh
    rw [unique j hj hend]
  · rintro rfl
    cases hh : s.halted with
    | true => rfl
    | false =>
      have := h.running hh k (Nat.lt_succ_self k)
      rw [he] at this
      cases this

end Sequential

theorem Reached.length_retired {m : Machine} {n : Nat} {s : Sequential}
    (h : Reached (Sequential.start m) m.core n s) :
    (Core.retired n m.core).length = s.retired := by
  have := h.run.retired_eq
  rw [this]
  exact (Nat.zero_add _).symm

/-- Before any exception, a pipeline has halted when the state it has reached has. -/
theorem Sequential.InStep.status_eq {s : Sequential} {m : Machine} (h : s.InStep m) {c : Core}
    (hc : Consistent s c) : c.pipeline.status = if s.halted then .halt else .success := by
  rw [hc.status, Sequential.status, h.untrapped]
  simp

namespace Machine.Fresh

variable {m : Machine} {n : Nat} {s : Sequential}

/-- Before any exception, what has retired are the records of the functional steps. -/
theorem retired_eq (h : m.Fresh) (hsafe : m.FetchSafe)
    (hr : Reached (Sequential.start m) m.core n s) (ht : s.trapped = false) :
    s.InStep m ∧ Core.retired n m.core = (List.range s.retired).map m.executed := by
  obtain ⟨hin, hmap⟩ := hr.run.inStep hsafe h.counters.2 ht
  rw [hr.length_retired] at hmap
  exact ⟨hin, hmap⟩

/-- The pipeline of a run without faults comes to every functional step. -/
theorem exists_retired (h : m.Fresh) (hfree : m.FaultFree) (hsafe : m.FetchSafe) {i : Nat}
    (hi : m.Reaches i) :
    ∃ n s, Reached (Sequential.start m) m.core n s ∧ s.InStep m ∧ i < s.retired := by
  obtain ⟨n, hn⟩ := h.consistent.retires_or_ends (i + 1)
  obtain ⟨s, hr, hin⟩ := h.reached hfree hsafe n
  refine ⟨n, s, hr, hin, ?_⟩
  rcases hn with ht | hlen
  · obtain ⟨k, hk, -, hend⟩ := hin.follows.stopped (hr.consistent.halted_of_terminal ht)
    rw [hk]
    apply Nat.lt_succ_of_le
    apply Nat.le_of_not_lt
    intro hlt
    have := hi k hlt
    rw [hend] at this
    cases this
  · rwa [hr.length_retired] at hlen

/-- The pipeline of a run without faults halts with the functional run. -/
theorem halts (h : m.Fresh) (hfree : m.FaultFree) (hsafe : m.FetchSafe) {k : Nat}
    (hk : m.Reaches k) (he : (m.executed k).stepEnd = .halted) :
    ∃ n, (Core.runTicks n m.core).pipeline.status = .halt := by
  obtain ⟨n, s, hr, hin, hlt⟩ := h.exists_retired hfree hsafe hk
  refine ⟨n, ?_⟩
  rw [hin.status_eq hr.consistent]
  cases hh : s.halted with
  | true => rfl
  | false =>
    have := hin.follows.running hh k hlt
    rw [he] at this
    cases this

/-- A pipeline that has halted is behind the last functional step. -/
theorem halted_of_halt (h : m.Fresh) (hfree : m.FaultFree) (hsafe : m.FetchSafe)
    (hn : (Core.runTicks n m.core).pipeline.status = .halt) :
    ∃ s, Reached (Sequential.start m) m.core n s ∧ s.InStep m ∧ s.halted = true := by
  obtain ⟨s, hr, hin⟩ := h.reached hfree hsafe n
  exact ⟨s, hr, hin, hr.consistent.halted_of_terminal (by rw [hn]; rfl)⟩

/-- What retires are records of functional steps, in their order. -/
theorem retired_getElem (h : m.Fresh) (hfree : m.FaultFree) (hsafe : m.FetchSafe) {i : Nat}
    {r : Instruction} (hi : (Core.retired n m.core)[i]? = some r) :
    m.Reaches i ∧ r = m.executed i := by
  obtain ⟨s, hr, hin⟩ := h.reached hfree hsafe n
  rw [(h.retired_eq hsafe hr hin.untrapped).2] at hi
  obtain ⟨hlen, hri⟩ := List.getElem?_eq_some_iff.mp hi
  have hlt : i < s.retired := by simpa using hlen
  refine ⟨?_, by rw [← hri]; simp⟩
  cases hh : s.halted with
  | false => exact (hin.follows.running hh).mono (Nat.le_of_lt hlt)
  | true =>
    obtain ⟨k, hk, hreach, -⟩ := hin.follows.stopped hh
    exact hreach.mono (by omega)

/-- A pipeline that has halted leaves the machine that the functional run leaves. -/
theorem machine_of_halt (h : m.Fresh) (hfree : m.FaultFree) (hsafe : m.FetchSafe) {k : Nat}
    {m' : Machine} (hn : (Core.runTicks n m.core).pipeline.status = .halt)
    (hk : m.runSteps k = (.halt, m')) :
    (Core.runTicks n m.core).machine.regs = m'.regs ∧
    (Core.runTicks n m.core).machine.memory = m'.memory ∧
    (Core.runTicks n m.core).machine.counters.instructions = m'.counters.instructions ∧
    (Core.runTicks n m.core).machine.counters.exceptions = 0 ∧
    m'.counters.exceptions = 0 := by
  obtain ⟨s, hr, hin, hh⟩ := h.halted_of_halt hfree hsafe hn
  obtain ⟨j, hj, hreach, hend⟩ := Machine.exists_halted (by rw [hk])
  have hret := (hin.follows.halted_iff hreach hend).mp hh
  have hm' : m' = m.after s.retired := by
    rw [Machine.runSteps_of_halted hreach hend hj] at hk
    rw [hret]
    exact (congrArg Prod.snd hk).symm
  have hraised := (hfree.peaceful hsafe h.counters.2).not_raised hin hr.consistent
  rw [hm']
  refine ⟨?_, ?_, ?_, ?_, ?_⟩
  · rw [hr.consistent.regs, hin.follows.regs]
  · rw [hr.consistent.memory, (hr.consistent.points_of_halted hh).1, hin.follows.memory]
  · rw [hr.consistent.instructions, Machine.instructions_after, h.counters.1]
    exact (Nat.zero_add _).symm
  · rw [hr.consistent.exceptions, hraised]
    rfl
  · rw [Machine.exceptions_after, h.counters.1]
    intro i hi
    rcases Nat.lt_succ_iff_lt_or_eq.mp (hret ▸ hi) with hlt | rfl
    · rw [hreach i hlt]; simp
    · rw [hend]; simp

end Machine.Fresh

/-- Pipelined execution refines functional execution, whatever the caches: for a run that meets no
exception and whose stores stay clear of the two instructions behind them, the pipeline halts
exactly when the functional run halts; what retires is what the functional steps return, in their
order and without end; and when it has halted, the machines agree. -/
theorem pipeline_refines_functional {m : Machine} (h : m.Fresh) (hfree : m.FaultFree)
    (hsafe : m.FetchSafe) :
    ((∃ n, (Core.runTicks n m.core).pipeline.status = .halt) ↔ ∃ n, (m.runSteps n).1 = .halt) ∧
    (∀ n i r, (Core.retired n m.core)[i]? = some r → m.Reaches i ∧ r = m.executed i) ∧
    (∀ i, m.Reaches i → ∃ n, (Core.retired n m.core)[i]? = some (m.executed i)) ∧
    (∀ n k m', (Core.runTicks n m.core).pipeline.status = .halt → m.runSteps k = (.halt, m') →
      (Core.runTicks n m.core).machine.regs = m'.regs ∧
      (Core.runTicks n m.core).machine.memory = m'.memory ∧
      (Core.runTicks n m.core).machine.counters.instructions = m'.counters.instructions ∧
      (Core.runTicks n m.core).machine.counters.exceptions = 0 ∧
      m'.counters.exceptions = 0) := by
  refine ⟨⟨?_, ?_⟩, ?_, ?_, ?_⟩
  · rintro ⟨n, hn⟩
    obtain ⟨s, -, hin, hh⟩ := h.halted_of_halt hfree hsafe hn
    obtain ⟨k, -, hreach, hend⟩ := hin.follows.stopped hh
    exact ⟨k + 1, by rw [Machine.runSteps_of_halted hreach hend (Nat.lt_succ_self k)]⟩
  · rintro ⟨n, hn⟩
    obtain ⟨k, -, hk, hend⟩ := Machine.exists_halted hn
    exact h.halts hfree hsafe hk hend
  · intro n i r hi
    exact h.retired_getElem hfree hsafe hi
  · intro i hi
    obtain ⟨n, s, hr, hin, hlt⟩ := h.exists_retired hfree hsafe hi
    refine ⟨n, ?_⟩
    rw [(h.retired_eq hsafe hr hin.untrapped).2]
    simp [hlt]
  · intro n k m' hn hk
    exact h.machine_of_halt hfree hsafe hn hk

/-- A memory that holds instruction words from its base on. -/
def Memory.ofWords (base : Word) (words : List InstWord) : Memory :=
  ⟨base, ⟨(words.flatMap fun w => toLittleEndian 4 w.toNat).toArray⟩⟩

/-- A machine about to add, store the sum and halt. -/
def Machine.storing : Machine :=
  .ofConfig {} (.ofWords 0 [0x00700293, 0x00502823, InstWord.halt, 0, 0]) .zero

theorem fetchSafe_storing : Machine.storing.FetchSafe :=
  Machine.fetchSafe_of_ends (n := 2) (by decide +kernel) (by decide +kernel)

/-- The pipeline of the storing machine halts, since the functional run does. -/
theorem pipeline_refines_functional_storing :
    Machine.storing.Fresh ∧ Machine.storing.FaultFree ∧ Machine.storing.FetchSafe ∧
      ∃ n, (Core.runTicks n Machine.storing.core).pipeline.status = .halt := by
  have hfresh : Machine.storing.Fresh := Machine.fresh_ofConfig rfl _ _
  have hfree : Machine.storing.FaultFree :=
    Machine.faultFree_of_halted (n := 2) (by decide +kernel) (by decide +kernel)
  refine ⟨hfresh, hfree, fetchSafe_storing, ?_⟩
  exact (pipeline_refines_functional hfresh hfree fetchSafe_storing).1.mpr
    ⟨3, by decide +kernel⟩

end FiveStage
