import FiveStage.Proofs.Cycle

/-! # Runs of the pipeline

What retires in a number of cycles is a run in program order, and the pipeline stays consistent with
the state behind it, unless a second exception has ended the run (`Consistent.simulation`). -/

namespace FiveStage

open Instruction

namespace Core

/-- What retires in the next cycle. -/
def retiring (c : Core) : List Instruction :=
  if c.pipeline.status.isTerminal then []
  else if c.tick.pipeline.slots.writeback.isLive then [c.tick.pipeline.slots.writeback]
  else []

/-- What retires in the next `n` cycles, the oldest instruction first. -/
def retired : Nat → Core → List Instruction
  | 0, _ => []
  | n + 1, c => c.retiring ++ retired n c.tick

theorem runTicks_succ (n : Nat) (c : Core) : runTicks (n + 1) c = runTicks n c.tick := by
  cases h : c.pipeline.status.isTerminal with
  | false => exact if_neg (by simp [h])
  | true =>
    rw [tick_of_terminal h]
    cases n with
    | zero => exact if_pos h
    | succ n => exact (if_pos h).trans (if_pos h).symm

theorem runTicks_add (m n : Nat) (c : Core) : runTicks (m + n) c = runTicks n (runTicks m c) := by
  induction m generalizing c with
  | zero => rw [Nat.zero_add]; rfl
  | succ m ih => rw [Nat.add_right_comm, runTicks_succ, runTicks_succ, ih]

theorem retired_add (m n : Nat) (c : Core) :
    retired (m + n) c = retired m c ++ retired n (runTicks m c) := by
  induction m generalizing c with
  | zero => rw [Nat.zero_add]; rfl
  | succ m ih =>
    rw [Nat.add_right_comm, retired, retired, ih, runTicks_succ, List.append_assoc]

/-- One more cycle. -/
theorem runTicks_one_more (n : Nat) (c : Core) : runTicks (n + 1) c = (runTicks n c).tick := by
  rw [runTicks_add, runTicks_succ]
  rfl

theorem retired_one_more (n : Nat) (c : Core) :
    retired (n + 1) c = retired n c ++ (runTicks n c).retiring := by
  rw [retired_add, retired, retired, List.append_nil]

theorem runTicks_of_terminal {c : Core} (h : c.pipeline.status.isTerminal = true) (n : Nat) :
    runTicks n c = c := by
  cases n with
  | zero => rfl
  | succ n => exact if_pos h

theorem retiring_of_terminal {c : Core} (h : c.pipeline.status.isTerminal = true) :
    c.retiring = [] := if_pos h

theorem retired_of_terminal {c : Core} (h : c.pipeline.status.isTerminal = true) (n : Nat) :
    retired n c = [] := by
  induction n with
  | zero => rfl
  | succ n ih => rw [retired, retiring_of_terminal h, tick_of_terminal h, ih, List.append_nil]

end Core

/-- The run of a pipeline in a state, seen from the state in which it began. -/
structure Reached (s₀ : Sequential) (c₀ : Core) (n : Nat) (s : Sequential) : Prop where
  run : s₀.Run (Core.retired n c₀) s
  consistent : Consistent s (Core.runTicks n c₀)

namespace Reached

variable {s₀ s : Sequential} {c₀ : Core} {n : Nat}

theorem one_more (h : Reached s₀ c₀ n s) (hc : Consistent s (Core.runTicks n c₀).tick)
    (hret : (Core.runTicks n c₀).retiring = []) : Reached s₀ c₀ (n + 1) s := by
  refine ⟨?_, by rw [Core.runTicks_one_more]; exact hc⟩
  rw [Core.retired_one_more, hret, List.append_nil]
  exact h.run

theorem tick_of_terminal (h : Reached s₀ c₀ n s)
    (ht : (Core.runTicks n c₀).pipeline.status.isTerminal = true) : Reached s₀ c₀ (n + 1) s :=
  h.one_more (by rw [Core.tick_of_terminal ht]; exact h.consistent) (Core.retiring_of_terminal ht)

/-- A frozen cycle retires nothing. -/
theorem tick_of_frozen (h : Reached s₀ c₀ n s)
    (hs : (Core.runTicks n c₀).pipeline.status = .success)
    (hm : 0 < (Core.runTicks n c₀).pipeline.control.memStall) : Reached s₀ c₀ (n + 1) s := by
  refine h.one_more (h.consistent.tick_frozen hs hm) ?_
  rw [Core.retiring, hs, Core.tick_of_frozen hs hm]
  rfl

/-- Any other cycle retires the next instruction in program order or none. -/
theorem tick_of_moving (h : Reached s₀ c₀ n s)
    (hs : (Core.runTicks n c₀).pipeline.status = .success)
    (hm : (Core.runTicks n c₀).pipeline.control.memStall = 0)
    (hc : Consistent ((Core.runTicks n c₀).memoryPoint s) (Core.runTicks n c₀).tick) :
    Reached s₀ c₀ (n + 1) ((Core.runTicks n c₀).memoryPoint s) := by
  refine ⟨?_, by rw [Core.runTicks_one_more]; exact hc⟩
  rw [Core.retired_one_more, Core.retiring, hs, (tick_slots hs hm).1, if_neg (by decide)]
  cases hl : (Core.runTicks n c₀).pipeline.slots.memory.isLive with
  | false =>
    rw [if_neg (by simp), List.append_nil, Core.memoryPoint, Sequential.pass_of_not_live _ hl]
    exact h.run
  | true =>
    obtain ⟨hacc, hrec⟩ := h.consistent.completed hl
    rw [if_pos rfl, Core.memoryPoint, Sequential.pass_of_live _ hl, ← hrec]
    exact h.run.snoc hacc hrec

/-- One more cycle leads on, or a second exception ends the run. -/
theorem tick (h : Reached s₀ c₀ n s) :
    (∃ s', Reached s₀ c₀ (n + 1) s') ∨
      (SecondException s (Core.runTicks n c₀) ∧ (Core.runTicks (n + 1) c₀).EndedTwice) := by
  cases ht : (Core.runTicks n c₀).pipeline.status.isTerminal with
  | true => exact .inl ⟨s, h.tick_of_terminal ht⟩
  | false =>
    have hs := RunStatus.eq_success ht
    rcases Nat.eq_zero_or_pos (Core.runTicks n c₀).pipeline.control.memStall with hm | hm
    · rcases h.consistent.tick_moving hs hm with hc | ⟨hx, hend⟩
      · exact .inl ⟨_, h.tick_of_moving hs hm hc⟩
      · exact .inr ⟨hx, by rw [Core.runTicks_one_more]; exact hend⟩
    · exact .inl ⟨s, h.tick_of_frozen hs hm⟩

end Reached

/-- After any number of cycles the pipeline is consistent with the state behind what has retired, or
a second exception has ended the run in an earlier cycle. -/
theorem Consistent.simulation {s₀ : Sequential} {c₀ : Core} (h : Consistent s₀ c₀) (n : Nat) :
    (∃ s, Reached s₀ c₀ n s) ∨
      ∃ k s, k < n ∧ Reached s₀ c₀ k s ∧ SecondException s (Core.runTicks k c₀) ∧
        (Core.runTicks n c₀).EndedTwice := by
  induction n with
  | zero => exact .inl ⟨s₀, .nil, h⟩
  | succ n ih =>
    rcases ih with ⟨s, hr⟩ | ⟨k, s, hk, hr, hx, hend⟩
    · rcases hr.tick with hr' | ⟨hx, hend⟩
      · exact .inl hr'
      · exact .inr ⟨n, s, Nat.lt_succ_self n, hr, hx, hend⟩
    · refine .inr ⟨k, s, Nat.lt_succ_of_lt hk, hr, hx, ?_⟩
      rw [Core.runTicks_one_more, Core.tick_of_terminal]
      · exact hend
      · rw [hend.status]; rfl

/-- A property that accepted instructions preserve, and that excludes exceptions. -/
structure Sequential.Peaceful (P : Sequential → Prop) : Prop where
  next : ∀ s i, P s → s.Accepts i → P (s.next (s.record i.raw i.id))
  untrapped : ∀ s, P s → s.trapped = false

namespace Sequential.Peaceful

variable {P : Sequential → Prop} {s : Sequential} {c : Core} {i : Instruction}

theorem pass (hP : Peaceful P) (h : P s) (hacc : i.isLive = true → s.Accepts i) : P (s.pass i) := by
  cases hl : i.isLive with
  | false => rw [pass_of_not_live _ hl]; exact h
  | true => rw [pass_of_live _ hl]; exact hP.next s i h (hacc hl)

/-- What is foreseen is what happens. -/
theorem foresee (hP : Peaceful P) (h : P s) (hacc : i.isLive = true → s.Accepts i) :
    P (s.foresee i) := by
  rw [foresee_eq_pass]
  · exact hP.pass h hacc
  · intro hl
    have := hP.untrapped _ (hP.next s i h (hacc hl))
    rw [trapped_next, Bool.or_eq_false_iff] at this
    exact this.2

/-- A pipeline that such a property guides stays clear of exceptions. -/
theorem not_raised (hP : Peaceful P) (h : P s) (hc : Consistent s c) :
    c.pipeline.control.exceptionRaised = false := by
  have hm : P (c.memoryPoint s) := hP.pass h fun hl => (hc.completed hl).accepts
  have he : P (c.executePoint s) := hP.foresee hm fun hl => (hc.executed hl).accepts
  have hd : P (c.decodePoint s) := hP.foresee he hc.accepted
  exact hc.raised.trans (hP.untrapped _ hd)

theorem reached {s₀ : Sequential} {c₀ : Core} (hP : Peaceful P) (h₀ : P s₀)
    (hc : Consistent s₀ c₀) (n : Nat) : ∃ s, Reached s₀ c₀ n s ∧ P s := by
  have holds : ∀ k s, Reached s₀ c₀ k s → P s := fun k s hr => hr.run.preserves h₀ hP.next
  rcases hc.simulation n with ⟨s, hr⟩ | ⟨k, s, -, hr, hx, -⟩
  · exact ⟨s, hr, holds n s hr⟩
  · have hraised := hP.not_raised (holds k s hr) hr.consistent
    cases hx with
    | fault h1 => rw [hraised] at h1; cases h1
    | illegal h1 => rw [hraised] at h1; cases h1

end Sequential.Peaceful

/-- A run that has ended otherwise than by a second exception has halted. -/
theorem Consistent.halted_of_terminal {s : Sequential} {c : Core} (h : Consistent s c)
    (ht : c.pipeline.status.isTerminal = true) : s.halted = true := by
  rw [h.status, Sequential.status] at ht
  cases hh : s.halted with
  | true => rfl
  | false => rw [hh] at ht; cases ht

/-- A pipeline whose run has ended has nothing left to do. -/
theorem Consistent.not_live_of_halted {s : Sequential} {c : Core} (h : Consistent s c)
    (hh : s.halted = true) :
    c.pipeline.slots.memory.isLive = false ∧ c.pipeline.slots.execute.isLive = false ∧
      c.pipeline.slots.decode.isLive = false := by
  have not_live : ∀ i : Instruction, (i.isLive = true → s.Accepts i) → i.isLive = false := by
    intro i hacc
    apply Bool.eq_false_iff.mpr
    intro hl
    have := (hacc hl).running
    rw [hh] at this
    cases this
  have hm := not_live _ fun hl => (h.completed hl).accepts
  have pm : c.memoryPoint s = s := Sequential.pass_of_not_live _ hm
  have he := not_live _ fun hl => pm ▸ (h.executed hl).accepts
  have pe : c.executePoint s = s := by
    rw [Core.executePoint, pm]
    exact Sequential.foresee_of_not_live _ he
  exact ⟨hm, he, not_live _ fun hl => pe ▸ h.accepted hl⟩

theorem Consistent.points_of_halted {s : Sequential} {c : Core} (h : Consistent s c)
    (hh : s.halted = true) : c.memoryPoint s = s ∧ c.decodePoint s = s := by
  obtain ⟨hm, he, hd⟩ := h.not_live_of_halted hh
  have pm : c.memoryPoint s = s := Sequential.pass_of_not_live _ hm
  refine ⟨pm, ?_⟩
  rw [Core.decodePoint, Core.executePoint, pm, Sequential.foresee_of_not_live _ he,
    Sequential.foresee_of_not_live _ hd]

end FiveStage
