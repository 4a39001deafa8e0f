import FiveStage.Proofs.Refinement

/-! # Caches only affect timing

What the pipeline retires does not depend on its caches, as long as no store overwrites the
instruction second behind it, which may have been fetched already: there is one sequence of states
through which every run goes (`Sequential.advances`). Two runs that have ended are thus at the same
state, unless one of them was ended by a second exception with other instructions still on their way
(`caches_only_affect_timing`). -/

namespace FiveStage

open Instruction

/-- No store overwrites a byte of the instruction second behind it, unless the one in between fails.
-/
def SecondClear (is : List Instruction) : Prop :=
  ∀ k, k < is.length → ∀ a ∈ is[k]?, ∀ b ∈ is[k + 1]?, ∀ i ∈ is[k + 2]?,
    a.memFault = false → b.stepEnd ≠ .failed → ¬ a.Overwrites i.pc

instance (is : List Instruction) : Decidable (SecondClear is) := by
  unfold SecondClear
  infer_instance

theorem SecondClear.of_append {is : List Instruction} {i : Instruction}
    (h : SecondClear (is ++ [i])) : SecondClear is := by
  have get : ∀ (j : Nat) (x : Instruction), x ∈ is[j]? → x ∈ (is ++ [i])[j]? := by
    intro j x hx
    have hlt : j < is.length := (List.getElem?_eq_some_iff.mp hx).1
    rwa [List.getElem?_append_left hlt]
  intro k hk a ha b hb x hx
  exact h k (by simp only [List.length_append]; omega) a (get k a ha) b (get _ b hb) x (get _ x hx)

/-- Memory after an instruction that has not failed. -/
structure Instruction.Leaves (i : Instruction) (m m' : Memory) : Prop where
  unfailed : i.memFault = false
  flags : i.flags = i.raw.flags
  fits : i.Fits m
  stored : m' = i.stored m

namespace Sequential

variable {s t : Sequential} {is js : List Instruction} {i : Instruction}

/-- The memory that the last two instructions found, seen from the memory they have left. -/
structure Remembers (is : List Instruction) (s : Sequential) : Prop where
  recent : s.memory = s.recent ∨ ∃ js a, is = js ++ [a] ∧ a.Leaves s.recent s.memory
  older : s.recent = s.older ∨
    ∃ js a b, is = js ++ [a, b] ∧ b.stepEnd ≠ .failed ∧ a.Leaves s.older s.recent

theorem leaves_record (s : Sequential) (w : InstWord) (id : Nat)
    (h : (s.record w id).memFault = false) :
    (s.record w id).Leaves s.memory ((s.record w id).stored s.memory) :=
  ⟨h, by simp, fits_of_accessed h, rfl⟩

theorem Remembers.next (h : s.Remembers is) (hrec : i = s.record i.raw i.id) :
    (s.next i).Remembers (is ++ [i]) := by
  have older : i.stepEnd ≠ .failed → s.memory = s.recent ∨
      ∃ js a b, is ++ [i] = js ++ [a, b] ∧ b.stepEnd ≠ .failed ∧ a.Leaves s.recent s.memory := by
    intro hi
    refine h.recent.imp id ?_
    rintro ⟨js, a, rfl, ha⟩
    exact ⟨js, a, i, by simp, hi, ha⟩
  cases he : i.stepEnd with
  | completed =>
    rw [next_of_completed _ he]
    refine ⟨.inr ⟨is, i, rfl, ?_⟩, older (by simp [he])⟩
    have hf : i.memFault = false := by
      have hne : i.stepEnd ≠ .failed := by simp [he]
      exact (Bool.or_eq_false_iff.mp (stepEnd_ne_failed_iff.mp hne)).2
    rw [hrec] at hf ⊢
    exact s.leaves_record _ _ hf
  | halted =>
    rw [next_of_halted _ he]
    exact ⟨.inl rfl, older (by simp [he])⟩
  | failed =>
    rw [next_of_failed _ he]
    exact ⟨.inl rfl, .inl rfl⟩

theorem Run.remembers {m : Machine} (h : (start m).Run is t) : t.Remembers is := by
  induction h with
  | nil => exact ⟨.inl rfl, .inl rfl⟩
  | snoc _ _ hrec ih => exact ih.next hrec

/-- The next word is the same whenever it is fetched. -/
def Steady (s : Sequential) : Prop := s.older.instructionAt s.pc = s.recent.instructionAt s.pc

theorem Remembers.steady (h : s.Remembers is) (hrec : i = s.record i.raw i.id)
    (hclear : SecondClear (is ++ [i])) : s.Steady := by
  unfold Steady
  rcases h.older with he | ⟨js, a, b, rfl, hb, ha⟩
  · rw [he]
  · have hpc : i.pc = s.pc := by rw [hrec, record_pc]
    have := hclear js.length (by simp) a (by simp) b (by simp) i (by simp) ha.unfailed hb
    rw [hpc] at this
    rw [ha.stored, instructionAt_stored ha.flags ha.fits this]

/-- The state after the next instruction, as memory stands when the instruction before it is run. -/
def advance (s : Sequential) : Sequential := s.next (s.record (s.recent.instructionAt s.pc) 0)

/-- The state after `n` instructions. -/
def advances (s : Sequential) : Nat → Sequential
  | 0 => s
  | n + 1 => (s.advances n).advance

theorem Steady.next_eq (h : s.Steady) (hacc : s.Accepts i) :
    s.next (s.record i.raw i.id) = s.advance := by
  have hraw : i.raw = s.recent.instructionAt s.pc := by
    rcases hacc.sees with hw | hw
    · exact hw
    · exact hw.trans h
  rw [hraw]
  exact next_record_id _ _ _ _

/-- The states from `s` on to the one behind `n` instructions are on a path that does not depend on
when words are fetched. -/
structure Path (s : Sequential) (n : Nat) : Prop where
  steady : ∀ k, k < n → (s.advances k).Steady
  running : ∀ k, k < n → (s.advances k).halted = false

/-- A run without stores that overwrite what has been fetched stays on the path. -/
theorem Run.path {m : Machine} (h : (start m).Run is t) (hclear : SecondClear is) :
    (start m).Path is.length ∧ t = (start m).advances is.length := by
  induction h with
  | nil => exact ⟨⟨nofun, nofun⟩, rfl⟩
  | @snoc is t i hrun hacc hrec ih =>
    obtain ⟨hpath, ht⟩ := ih hclear.of_append
    have hsteady := hrun.remembers.steady hrec hclear
    have hlt : ∀ k, k < (is ++ [i]).length → k < is.length ∨ k = is.length := by
      intro k hk
      rw [List.length_append, List.length_singleton] at hk
      omega
    refine ⟨⟨?_, ?_⟩, ?_⟩
    · intro k hk
      rcases hlt k hk with hk | rfl
      · exact hpath.steady k hk
      · exact ht ▸ hsteady
    · intro k hk
      rcases hlt k hk with hk | rfl
      · exact hpath.running k hk
      · exact ht ▸ hacc.running
    · rw [List.length_append, List.length_singleton, advances, ← ht, hrec]
      exact hsteady.next_eq (i := i) hacc

/-- A state on a path. -/
def OnPath (s₀ : Sequential) (n : Nat) (s : Sequential) : Prop := ∃ k, k ≤ n ∧ s = s₀.advances k

/-- On a path that has come to its end, all runs go the same way. -/
theorem Path.next {n : Nat} (h : s.Path n) (hend : (s.advances n).halted = true)
    (ht : s.OnPath n t) (hacc : t.Accepts i) : s.OnPath n (t.next (t.record i.raw i.id)) := by
  obtain ⟨k, hk, rfl⟩ := ht
  have hlt : k < n := by
    rcases Nat.lt_or_eq_of_le hk with hlt | rfl
    · exact hlt
    · rw [hacc.running] at hend
      cases hend
  exact ⟨k + 1, hlt, (h.steady k hlt).next_eq hacc⟩

theorem Path.eq_of_halted {n : Nat} (h : s.Path n) (ht : s.OnPath n t) (hh : t.halted = true) :
    t = s.advances n := by
  obtain ⟨k, hk, rfl⟩ := ht
  rcases Nat.lt_or_eq_of_le hk with hlt | rfl
  · rw [h.running k hlt] at hh
    cases hh
  · rfl

theorem trapped_advances (s : Sequential) {k n : Nat} (hk : k ≤ n)
    (h : (s.advances n).trapped = false) : (s.advances k).trapped = false := by
  obtain ⟨d, rfl⟩ := Nat.exists_eq_add_of_le hk
  induction d with
  | zero => exact h
  | succ d ih =>
    refine ih (Nat.le_add_right _ _) ?_
    rw [Nat.add_succ, advances, advance, trapped_next, Bool.or_assoc, Bool.or_eq_false_iff] at h
    exact h.1

/-- A path to a halt without an exception is clear of exceptions. -/
theorem Path.peaceful {n : Nat} (h : s.Path n) (hend : (s.advances n).halted = true)
    (hu : (s.advances n).trapped = false) : Peaceful fun t => s.OnPath n t where
  next := fun _ _ ht hacc => h.next hend ht hacc
  untrapped := by
    rintro _ ⟨k, hk, rfl⟩
    exact s.trapped_advances hk hu

end Sequential

/-- Two machines about to run the same program, whatever their caches. -/
structure Machine.SameProgram (m m' : Machine) : Prop where
  regs : m.regs = m'.regs
  pc : m.pc = m'.pc
  memory : m.memory = m'.memory

theorem Machine.SameProgram.symm {m m' : Machine} (h : m.SameProgram m') : m'.SameProgram m :=
  ⟨h.regs.symm, h.pc.symm, h.memory.symm⟩

theorem Machine.SameProgram.start_eq {m m' : Machine} (h : m.SameProgram m') :
    Sequential.start m = Sequential.start m' := by
  unfold Sequential.start
  rw [h.regs, h.pc, h.memory]

theorem Reached.path {m : Machine} {k : Nat} {s : Sequential}
    (h : Reached (Sequential.start m) m.core k s) (hclear : SecondClear (Core.retired k m.core)) :
    (Sequential.start m).Path s.retired ∧ s = (Sequential.start m).advances s.retired := by
  rw [← h.length_retired]
  exact h.run.path hclear

/-- What a run leaves behind that its caches have no influence on. -/
structure Core.SameOutcome (c c' : Core) : Prop where
  regs : c.machine.regs = c'.machine.regs
  memory : c.machine.memory = c'.machine.memory
  instructions : c.machine.counters.instructions = c'.machine.counters.instructions
  exceptions : c.machine.counters.exceptions = c'.machine.counters.exceptions

/-- Two pipelines that have halted in the same state agree. -/
theorem Consistent.sameOutcome {s : Sequential} {c c' : Core} (h : Consistent s c)
    (h' : Consistent s c') (hh : s.halted = true) : c.SameOutcome c' where
  regs := h.regs.trans h'.regs.symm
  memory := by
    rw [h.memory, h'.memory, (h.points_of_halted hh).1, (h'.points_of_halted hh).1]
  instructions := h.instructions.trans h'.instructions.symm
  exceptions := by
    rw [h.exceptions, h'.exceptions, h.raised, h'.raised, (h.points_of_halted hh).2,
      (h'.points_of_halted hh).2]

namespace Machine

variable {m m' : Machine} {k k' : Nat}

/-- If the pipeline halts without an exception, it does so whatever its caches. -/
theorem Fresh.halt_of_halt (h : m.Fresh) (h' : m'.Fresh) (hsame : m.SameProgram m')
    (hhalt : (Core.runTicks k m.core).pipeline.status = .halt)
    (hclear : SecondClear (Core.retired k m.core))
    (hend' : (Core.runTicks k' m'.core).pipeline.status.isTerminal = true) :
    (Core.runTicks k' m'.core).pipeline.status = .halt := by
  obtain ⟨s, hr⟩ | ⟨_, _, _, _, _, hend⟩ := h.consistent.simulation k
  · have hstatus := hr.consistent.status.symm.trans hhalt
    have hh := hr.consistent.halted_of_terminal (by rw [hhalt]; rfl)
    have hu : s.trapped = false := by
      rw [Sequential.status, hh] at hstatus
      cases ht : s.trapped with
      | false => rfl
      | true => rw [ht] at hstatus; cases hstatus
    obtain ⟨hpath, hs⟩ := hr.path hclear
    have hhn : ((Sequential.start m).advances s.retired).halted = true := hs ▸ hh
    have hpeace := hpath.peaceful hhn (hs ▸ hu)
    obtain ⟨t, hr', hon⟩ := hpeace.reached ⟨0, Nat.zero_le _, rfl⟩
      (hsame.start_eq ▸ h'.consistent) k'
    have ht := hr'.consistent.halted_of_terminal hend'
    rw [hr'.consistent.status, hpath.eq_of_halted hon ht, ← hs, hstatus]
  · cases hhalt.symm.trans hend.status

end Machine

theorem RunStatus.eq_halt_or_exception {s : RunStatus} (h : s.isTerminal = true) :
    s = .halt ∨ s = .exception := by
  cases s with
  | success => cases h
  | halt => exact .inl rfl
  | exception => exact .inr rfl

/-- Caches only affect timing. Two pipelines that run the same program with any accepted caches and
come to an end, without a store that overwrites the instruction second behind it, end with the same
status. If neither was ended by a second exception, they also agree on registers, memory and the
counts of instructions and exceptions. -/
theorem caches_only_affect_timing {m m' : Machine} (h : m.Fresh) (h' : m'.Fresh)
    (hsame : m.SameProgram m') {k k' : Nat}
    (hend : (Core.runTicks k m.core).pipeline.status.isTerminal = true)
    (hend' : (Core.runTicks k' m'.core).pipeline.status.isTerminal = true)
    (hclear : SecondClear (Core.retired k m.core))
    (hclear' : SecondClear (Core.retired k' m'.core)) :
    (Core.runTicks k m.core).pipeline.status = (Core.runTicks k' m'.core).pipeline.status ∧
    ((Core.runTicks k m.core).machine.counters.exceptions ≤ 1 →
      (Core.runTicks k' m'.core).machine.counters.exceptions ≤ 1 →
      (Core.runTicks k m.core).SameOutcome (Core.runTicks k' m'.core)) := by
  refine ⟨?_, ?_⟩
  · rcases RunStatus.eq_halt_or_exception hend with he | he
    · rw [he, h.halt_of_halt h' hsame he hclear hend']
    · rcases RunStatus.eq_halt_or_exception hend' with he' | he'
      · rw [he', h'.halt_of_halt h hsame.symm he' hclear' hend]
      · rw [he, he']
  · intro hx hx'
    obtain ⟨s, hr⟩ | ⟨_, _, _, _, _, htwice⟩ := h.consistent.simulation k
    · obtain ⟨t, hr'⟩ | ⟨_, _, _, _, _, htwice⟩ := h'.consistent.simulation k'
      · have hs := hr.consistent.halted_of_terminal hend
        have ht := hr'.consistent.halted_of_terminal hend'
        obtain ⟨hpath, es⟩ := hr.path hclear
        obtain ⟨hpath', et⟩ := hr'.path hclear'
        rw [← hsame.start_eq] at hpath' et
        have heq : t = s := by
          rcases Nat.le_total t.retired s.retired with hle | hle
          · rw [hpath.eq_of_halted ⟨_, hle, et⟩ ht, ← es]
          · rw [hpath'.eq_of_halted ⟨_, hle, es⟩ hs, ← et]
        subst heq
        exact hr.consistent.sameOutcome hr'.consistent hs
      · exact absurd htwice.exceptions (by omega)
    · exact absurd htwice.exceptions (by omega)

/-- The storing machine with an instruction cache that does not make it wait. -/
def Machine.storingAtOnce : Machine :=
  .ofConfig { instructionCache.missLatency := 0 } Machine.storing.memory .zero

/-- The storing machine leaves the same memory behind with either cache. -/
theorem caches_only_affect_timing_storing :
    (Core.runTicks 30 Machine.storing.core).SameOutcome
      (Core.runTicks 30 Machine.storingAtOnce.core) := by
  have h : Machine.storing.Fresh := Machine.fresh_ofConfig rfl _ _
  have h' : Machine.storingAtOnce.Fresh := Machine.fresh_ofConfig rfl _ _
  have hend : (Core.runTicks 30 Machine.storing.core).pipeline.status.isTerminal = true := by
    decide +kernel
  have hend' : (Core.runTicks 30 Machine.storingAtOnce.core).pipeline.status.isTerminal = true := by
    decide +kernel
  have hclear : SecondClear (Core.retired 30 Machine.storing.core) := by decide +kernel
  have hclear' : SecondClear (Core.retired 30 Machine.storingAtOnce.core) := by decide +kernel
  exact (caches_only_affect_timing h h' ⟨rfl, rfl, rfl⟩ hend hend' hclear hclear').2
    (by decide +kernel) (by decide +kernel)

/-- A machine that stores over the instruction second behind, which it may have fetched already. -/
def Machine.patching (instructionCache : Geometry) : Machine :=
  .ofConfig { instructionCache }
    (.ofWords 0 [0x00102423, 0x00100313, 0x00100293, InstWord.halt, 0, 0])
    (Registers.zero.write 1 0x00200293)

/-- A machine that meets a word that is no instruction, and another one as its exception handler. -/
def Machine.doomed (instructionCache : Geometry) : Machine :=
  .ofConfig { startPc := 0x7FF0, instructionCache }
    (.ofWords 0x7FF0 [0x00100293, 0x00100313, 0, 0, 0]) .zero

/-- A store over the instruction second behind may come too late for its fetch, and a second
exception may come before an older instruction retires. -/
theorem outcome_depends_on_caches :
    ((Machine.patching {}).Fresh ∧ (Machine.patching { blockBytes := 4 }).Fresh ∧
      (Machine.patching {}).SameProgram (Machine.patching { blockBytes := 4 }) ∧
      (Core.runTicks 30 (Machine.patching {}).core).pipeline.status = .halt ∧
      (Core.runTicks 30 (Machine.patching { blockBytes := 4 }).core).pipeline.status = .halt ∧
      (Core.runTicks 30 (Machine.patching {}).core).machine.regs ≠
        (Core.runTicks 30 (Machine.patching { blockBytes := 4 }).core).machine.regs) ∧
    ((Machine.doomed {}).Fresh ∧ (Machine.doomed { missLatency := 0 }).Fresh ∧
      (Machine.doomed {}).SameProgram (Machine.doomed { missLatency := 0 }) ∧
      (Core.runTicks 30 (Machine.doomed {}).core).pipeline.status = .exception ∧
      (Core.runTicks 30 (Machine.doomed { missLatency := 0 }).core).pipeline.status = .exception ∧
      (Core.runTicks 30 (Machine.doomed {}).core).machine.counters.instructions ≠
        (Core.runTicks 30 (Machine.doomed { missLatency := 0 }).core).machine.counters.instructions)
    := by
  have hregs : (Core.runTicks 30 (Machine.patching {}).core).machine.regs.read 5 ≠
      (Core.runTicks 30 (Machine.patching { blockBytes := 4 }).core).machine.regs.read 5 := by
    decide +kernel
  refine ⟨⟨Machine.fresh_ofConfig rfl _ _, Machine.fresh_ofConfig rfl _ _, ⟨rfl, rfl, rfl⟩, ?_, ?_,
    fun h => hregs (by rw [h])⟩, Machine.fresh_ofConfig rfl _ _, Machine.fresh_ofConfig rfl _ _,
    ⟨rfl, rfl, rfl⟩, ?_, ?_, ?_⟩
  all_goals decide +kernel

end FiveStage
