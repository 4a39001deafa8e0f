import FiveStage.Proofs.Exceptions
import FiveStage.Proofs.Route

/-! # Runs that halt

A run that ends with the halt word has met no exception in any of its cycles
(`Machine.Fresh.of_halt`), and when it has ended nothing is left in flight (`Consistent.emptied`).
What has retired ends with the halt word and holds it nowhere else
(`Sequential.Run.ends_with_halt`). -/

namespace FiveStage

open Instruction

namespace Sequential

/-- What holds of every record holds of all that a run retires. -/
theorem Run.forall_record {s t : Sequential} {is : List Instruction} (h : s.Run is t)
    (P : Instruction → Prop)
    (hP : ∀ (s : Sequential) (w : InstWord) (id : Nat), P (s.record w id)) :
    ∀ i ∈ is, P i := by
  induction h with
  | nil => exact fun i hi => absurd hi List.not_mem_nil
  | snoc _ _ hrec ih =>
    intro j hj
    rcases List.mem_append.mp hj with hj | hj
    · exact ih j hj
    · rw [List.mem_singleton.mp hj, hrec]
      exact hP _ _ _

/-- A record ends the run if it is that of the halt word. -/
theorem halted_next_record (s : Sequential) {i : Instruction} (h : i = s.record i.raw i.id) :
    (s.next i).halted = (s.halted || i.flags.halt) := by
  have hf : i.flags = i.raw.flags := by
    rw [h]
    simp
  rw [hf]
  refine halted_next s hf ?_
  intro hh
  rw [h]
  exact memFault_record_of_halt _ _ hh

theorem Run.not_halt {s t : Sequential} {is : List Instruction} (h : s.Run is t)
    (ht : t.halted = false) : ∀ i ∈ is, i.flags.halt = false := by
  induction h with
  | nil => exact fun i hi => absurd hi List.not_mem_nil
  | snoc _ hacc hrec ih =>
    intro j hj
    rw [halted_next_record _ hrec, Bool.or_eq_false_iff] at ht
    rcases List.mem_append.mp hj with hj | hj
    · exact ih ht.1 j hj
    · rw [List.mem_singleton.mp hj]
      exact ht.2

/-- A run that has halted has retired the halt word, and that at its end only. -/
theorem Run.ends_with_halt {s t : Sequential} {is : List Instruction} (h : s.Run is t)
    (hs : s.halted = false) (ht : t.halted = true) :
    ∃ js last, is = js ++ [last] ∧ last.flags.halt = true ∧ ∀ i ∈ js, i.flags.halt = false := by
  cases h with
  | nil =>
    rw [hs] at ht
    cases ht
  | @snoc js t last hrun hacc hrec =>
    rw [halted_next_record _ hrec, hacc.running, Bool.false_or] at ht
    exact ⟨js, last, rfl, ht, hrun.not_halt hacc.running⟩

/-- An instruction that is not followed by the next word is a branch or jump. -/
theorem isControl_of_turns (s : Sequential) (w : InstWord) (id : Nat)
    (h : (s.record w id).turns = true) : (s.record w id).isControl = true := by
  cases hc : (s.record w id).isControl with
  | true => rfl
  | false =>
    have he : (s.record w id).isControl = (issued s.regs s.pc w id).isControl := by
      rw [record, accessed_eq, prepared, withAddress_eq]
      rfl
    have hnext : (s.record w id).nextPc = (s.record w id).fallThrough := by
      rw [record_nextPc, successor_of_not_control (he ▸ hc), fallThrough, fallThrough,
        record_pc]
      rfl
    rw [turns, turn?_of_fallThrough hnext] at h
    cases h

end Sequential

namespace Machine.Fresh

variable {m : Machine} {n k : Nat}

/-- Without a second exception a pipeline stays consistent with a run in program order. -/
theorem reached_of_exceptions (h : m.Fresh)
    (hx : (Core.runTicks n m.core).machine.counters.exceptions = 0) :
    ∃ s, Reached (Sequential.start m) m.core n s := by
  rcases h.consistent.simulation n with hr | ⟨_, _, _, _, _, hend⟩
  · exact hr
  · have := hend.exceptions
    rw [hx] at this
    cases this

/-- A run that ends with the halt word has met no exception. -/
theorem of_halt (h : m.Fresh) (hn : (Core.runTicks n m.core).pipeline.status = .halt) :
    (Core.runTicks n m.core).machine.counters.exceptions = 0 ∧
      ∃ s, Reached (Sequential.start m) m.core n s ∧ s.halted = true := by
  rcases h.consistent.simulation n with ⟨s, hr⟩ | ⟨_, _, _, _, _, hend⟩
  · have hh := hr.consistent.halted_of_terminal (by rw [hn]; rfl)
    have hstatus := hr.consistent.status.symm.trans hn
    have hu : s.trapped = false := by
      rw [Sequential.status, hh] at hstatus
      cases ht : s.trapped with
      | false => rfl
      | true =>
        rw [ht] at hstatus
        cases hstatus
    refine ⟨?_, s, hr, hh⟩
    rw [hr.consistent.exceptions, hr.consistent.raised, (hr.consistent.points_of_halted hh).2, hu]
    rfl
  · cases hn.symm.trans hend.status

end Machine.Fresh

/-- The front end of an empty pipeline is in order. -/
theorem Machine.orderly (m : Machine) : m.core.Orderly where
  waiting := nofun
  resting := nofun
  fetching := .starting rfl rfl rfl rfl

/-- A pipeline with nothing in flight, behind which fetch rests. -/
structure Core.Emptied (c : Core) : Prop where
  memory : c.pipeline.slots.memory.isLive = false
  execute : c.pipeline.slots.execute.isLive = false
  decode : c.pipeline.slots.decode.isLive = false
  fetch : c.pipeline.slots.fetch = .idle
  halted : c.pipeline.control.fetchHalted = true
  redirect : c.pipeline.control.redirect = none

theorem Core.Emptied.inFlight_eq {c : Core} (h : c.Emptied) : c.inFlight = [] := by
  simp [Core.inFlight, h.memory, h.execute, h.decode]

/-- When a run has halted nothing is left to do. -/
theorem Consistent.emptied {s : Sequential} {c : Core} (h : Consistent s c)
    (hh : s.halted = true) : c.Emptied := by
  obtain ⟨hm, he, hd⟩ := h.not_live_of_halted hh
  have hf := h.frontEnd
  rw [(h.points_of_halted hh).2] at hf
  have running : s.halted = false → c.Emptied := fun hr => absurd (hr.symm.trans hh) (by decide)
  cases hf with
  | resting h1 _ h3 h4 => exact ⟨hm, he, hd, h1, h4, h3⟩
  | starting _ _ _ _ h5 => exact running h5
  | following _ _ _ _ h5 => exact running h5
  | waiting _ _ _ _ h5 => exact running h5
  | steering _ _ _ h4 => exact running h4

/-- The route begins at the program counter. -/
theorem Machine.onRoute {m : Machine} (h : m.counters.squashed = 0) :
    m.core.OnRoute m.pc m.core.ahead [] :=
  ⟨rfl, h⟩

/-- The route of a run that has halted is that of what has retired. -/
theorem Machine.Fresh.route {m : Machine} (h : m.Fresh) {n : Nat}
    (hn : (Core.runTicks n m.core).pipeline.status = .halt) :
    Route m.pc (Core.stream Core.fetches n m.core) (Core.retired n m.core) none
        (Core.runTicks n m.core).machine.counters.squashed ∧
      (Core.runTicks n m.core).machine.icache =
        m.icache.feed (Core.stream Core.fetches n m.core) := by
  obtain ⟨hx, s, hr, hh⟩ := h.of_halt hn
  have he := hr.consistent.emptied hh
  have hahead : (Core.runTicks n m.core).ahead = [] :=
    if_pos (by rw [Core.begun, he.halted, Bool.or_true])
  have hsquashed : m.counters.squashed = 0 := by rw [h.counters.1]
  obtain ⟨hroute, hicache⟩ := (Machine.onRoute hsquashed).run m.orderly n hx
  unfold Core.OnRoute at hroute
  rw [he.inFlight_eq, he.redirect, hahead, List.append_nil, List.append_nil] at hroute
  exact ⟨hroute, hicache⟩

end FiveStage
