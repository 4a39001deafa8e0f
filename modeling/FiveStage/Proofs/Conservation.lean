import FiveStage.Proofs.Cache
import FiveStage.Proofs.InFlight
import FiveStage.Proofs.Refinement

/-! # No instruction is lost or duplicated

Every word that is fetched is still in a slot, has retired, or has been thrown away and counted
(`Core.Balanced`), and the instructions that have retired or are in flight are numbered in their
order, below the number that decode gives next (`Core.Numbered`). Both are kept by every cycle of
every program, by the one that a second exception ends too. -/

namespace FiveStage

open Instruction

namespace Core

/-- Fetch holds a fetched word or nothing, and decode holds no word that is still speculative. -/
structure InPlace (c : Core) : Prop where
  fetch : c.pipeline.slots.fetch.isFetched = true ∨ c.pipeline.slots.fetch = .idle
  decode : c.pipeline.slots.decode.status ≠ .speculative

/-- The words that have been fetched are those that have retired, were thrown away, or are still
underway. -/
def Balanced (c : Core) : Prop :=
  c.machine.icache.hits + c.machine.icache.misses =
    c.machine.counters.instructions + c.machine.counters.squashed
      + c.pipeline.slots.fetch.isFetched.toNat + c.inFlight.length

/-- The numbers of what has retired and of what is in flight increase up to the next number. -/
def Numbered (retired : List Instruction) (c : Core) : Prop :=
  ((retired ++ c.inFlight).map (·.id) ++ [c.machine.nextId]).Pairwise (· < ·)

section Phases

variable (c : Core)

theorem discard_status (i : Instruction) : (discard i).status ≠ .speculative := by
  unfold discard
  split
  next => simp [squash]
  next h =>
    intro hs
    simp [isFetched, hs] at h

theorem inPlace_fetchPhase :
    c.fetchPhase.pipeline.slots.fetch.isFetched = true ∨
      c.fetchPhase.pipeline.slots.fetch = .idle := by
  cases hh : c.pipeline.control.fetchHalted with
  | true => exact .inr (fetch_fetchPhase_of_halted hh)
  | false => exact .inl (fetch_fetchPhase hh).1

/-- A moving fetch brings in one word, unless it rests. -/
theorem traffic_fetchPhase :
    c.fetchPhase.machine.icache.hits + c.fetchPhase.machine.icache.misses =
      c.machine.icache.hits + c.machine.icache.misses
        + c.fetchPhase.pipeline.slots.fetch.isFetched.toNat := by
  cases hh : c.pipeline.control.fetchHalted with
  | true =>
    have e : c.fetchPhase =
        { c with pipeline.slots := { c.pipeline.slots with fetch := .idle } } := if_pos hh
    rw [e]
    rfl
  | false =>
    have hi : c.fetchPhase.machine.icache = c.machine.icache.access c.machine.pc := by
      unfold fetchPhase
      rw [if_neg (by simp [hh])]
      rfl
    rw [hi, (fetch_fetchPhase hh).1]
    exact Cache.traffic_access _ _

/-- What decode leaves over is less than what was in flight by what it throws away. -/
theorem length_leftOver (h : c.InPlace) :
    c.leftOver.length + (c.flushes && c.pipeline.slots.decode.isFetched).toNat =
      c.inFlight.length := by
  rw [leftOver_eq, inFlight_eq, isFetched_eq h.decode]
  cases c.flushes with
  | true => simp only [if_true, List.append_nil, List.length_append, length_filter_live,
      Bool.true_and]
  | false => simp

/-- When decode moves on it takes over the next instruction and numbers it, or it throws away what
fetch holds. -/
theorem decodePhase_takes (hready : c.fetchReady = true)
    (hf : c.pipeline.slots.fetch.isFetched = true ∨ c.pipeline.slots.fetch = .idle) :
    c.decodePhase.machine.icache = c.machine.icache ∧
    c.decodePhase.machine.counters.instructions = c.machine.counters.instructions ∧
    c.decodePhase.pipeline.slots.decode.status ≠ .speculative ∧
    ([c.decodePhase.pipeline.slots.decode].filter (·.isLive) = [] ∧
        c.decodePhase.machine.counters.squashed =
          c.machine.counters.squashed + c.pipeline.slots.fetch.isFetched.toNat ∧
        c.decodePhase.machine.nextId = c.machine.nextId ∨
      [c.decodePhase.pipeline.slots.decode].filter (·.isLive) = [c.decodedWord] ∧
        c.decodedWord.id = c.machine.nextId ∧ c.pipeline.slots.fetch.isFetched = true ∧
        c.decodePhase.machine.counters.squashed = c.machine.counters.squashed ∧
        c.decodePhase.machine.nextId = c.machine.nextId + 1) := by
  rcases c.decodePhase_cases hready hf with ⟨target, -, e⟩ | ⟨-, -, hi, e⟩ | ⟨-, -, hi, e⟩
  · rw [e, redirectPhase_eq]
    have := discard_not_live c.pipeline.slots.fetch
    refine ⟨rfl, rfl, discard_status _, .inl ⟨?_, rfl, rfl⟩⟩
    simp [this]
  · rw [e, hi]
    exact ⟨rfl, rfl, nofun, .inl ⟨rfl, rfl, rfl⟩⟩
  · have hw := decodedWord_spec hi
    have hm := machine_dispatch
      { c with machine := { c.machine with nextId := c.machine.nextId + 1 } } c.decodedWord
    have hlive : [c.decodedWord].filter (·.isLive) = [c.decodedWord] := by simp [hw.live]
    have hstatus : c.decodedWord.status ≠ .speculative := by
      intro hs
      have := hw.live
      simp [isLive, hs] at this
    rw [e]
    simp only [setDecode]
    refine ⟨?_, ?_, hstatus, .inr ⟨hlive, hw.id, hi, ?_, ?_⟩⟩
    all_goals
      rw [hm]
      split <;> rfl

end Phases

/-- What a moving cycle does to the words underway: `taken` is what decode has taken over. -/
structure Advances (c d : Core) (taken : List Instruction) : Prop where
  inPlace : d.InPlace
  ids : ([c.pipeline.slots.memory].filter (·.isLive) ++ d.inFlight).map (·.id) =
    (c.leftOver ++ taken).map (·.id)
  numbered : taken.map (·.id) = List.range' c.machine.nextId taken.length
  nextId : d.machine.nextId = c.machine.nextId + taken.length
  instructions : d.machine.counters.instructions = c.retireHalf.machine.counters.instructions
  traffic : d.machine.icache.hits + d.machine.icache.misses
      + c.retireHalf.machine.counters.squashed + c.pipeline.slots.fetch.isFetched.toNat =
    c.machine.icache.hits + c.machine.icache.misses + d.machine.counters.squashed
      + taken.length + d.pipeline.slots.fetch.isFetched.toNat

section Cycle

variable {c : Core}

/-- Outlines tell the numbers. -/
theorem ids_of_outlines {is js : List Instruction} (h : is.map outline = js.map outline) :
    is.map (·.id) = js.map (·.id) :=
  map_of_outlines _ (fun _ => rfl) h

theorem fetch_retireHalf (c : Core) :
    c.retireHalf.pipeline.slots.fetch = c.pipeline.slots.fetch := by
  rw [slots_retireHalf]

theorem decode_retireHalf (h : c.InPlace) :
    c.retireHalf.pipeline.slots.decode.status ≠ .speculative := by
  rw [slots_retireHalf]
  dsimp only
  split
  · exact discard_status _
  · exact h.decode

theorem status_resolvePhase (c : Core) :
    c.resolvePhase.pipeline.slots.decode.status = c.pipeline.slots.decode.status := by
  rcases c.resolvePhase_cases with e | ⟨-, i, ho, e⟩
  · rw [e]
  · rw [e]
    exact congrArg (fun o => o.status) ho

theorem fetch_resolvePhase (c : Core) :
    c.resolvePhase.pipeline.slots.fetch = c.pipeline.slots.fetch := by
  obtain ⟨_, _, _, e⟩ := resolvePhase_shape c
  rw [e]

/-- The decoded instruction waits. -/
theorem advances_hold (h : c.InPlace) (k : Hold) :
    c.Advances (c.retireHalf.holdPhase k).resolvePhase.fetchWait [] := by
  have hm : (c.retireHalf.holdPhase k).resolvePhase.fetchWait.machine =
      (c.retireHalf.countHold k).machine := machine_resolvePhase _
  have hf : (c.retireHalf.holdPhase k).resolvePhase.fetchWait.pipeline.slots.fetch =
      c.pipeline.slots.fetch := by
    refine (fetch_resolvePhase _).trans (Eq.trans ?_ c.fetch_retireHalf)
    cases k <;> rfl
  have hd : (c.retireHalf.holdPhase k).resolvePhase.fetchWait.pipeline.slots.decode.status =
      c.retireHalf.pipeline.slots.decode.status := by
    refine (status_resolvePhase _).trans ?_
    obtain ⟨_, -, -, e⟩ := holdPhase_shape c.retireHalf k
    rw [e, forward_shape]
  obtain ⟨hi, -, hn, -⟩ := c.machine_retireHalf
  have hcount : (c.retireHalf.countHold k).machine.icache = c.machine.icache ∧
      (c.retireHalf.countHold k).machine.nextId = c.machine.nextId ∧
      (c.retireHalf.countHold k).machine.counters.instructions =
        c.retireHalf.machine.counters.instructions ∧
      (c.retireHalf.countHold k).machine.counters.squashed =
        c.retireHalf.machine.counters.squashed := by
    cases k <;> exact ⟨hi, hn, rfl, rfl⟩
  obtain ⟨e1, e2, e3, e4⟩ := hcount
  exact {
    inPlace := ⟨by rw [hf]; exact h.fetch, by rw [hd]; exact decode_retireHalf h⟩
    ids := by
      rw [List.append_nil, ← ids_of_outlines (c.outline_holdPhase k), List.map_append,
        List.map_append]
      congr 1
      exact ids_resolvePhase _
    numbered := rfl
    nextId := by rw [hm, e2]; rfl
    instructions := by rw [hm, e3]
    traffic := by rw [hm, hf, e1, e4]; rfl }

/-- Decode waits for fetch. -/
theorem advances_await (h : c.InPlace) :
    c.Advances c.retireHalf.executePhase.awaitFetch.fetchWait [] := by
  obtain ⟨hi, -, hn, -⟩ := c.machine_retireHalf
  have hf : c.retireHalf.executePhase.awaitFetch.fetchWait.pipeline.slots.fetch =
      c.pipeline.slots.fetch := c.fetch_retireHalf
  have hicache : c.retireHalf.executePhase.awaitFetch.fetchWait.machine.icache =
      c.machine.icache := hi
  exact {
    inPlace := ⟨by rw [hf]; exact h.fetch, nofun⟩
    ids := ids_of_outlines (c.outline_moved rfl rfl)
    numbered := rfl
    nextId := hn
    instructions := rfl
    traffic := by rw [hf, hicache]; rfl }

/-- Neither resolving a branch nor fetch changes what is in flight, or what is counted besides the
traffic of the cache. -/
theorem ids_fetched (c : Core) :
    c.resolvePhase.fetchPhase.inFlight.map (·.id) = c.inFlight.map (·.id) := by
  obtain ⟨_, _, _, _, e⟩ := fetchPhase_shape c.resolvePhase
  rw [← ids_resolvePhase c, e]
  rfl

theorem counts_fetched (c : Core) :
    c.resolvePhase.fetchPhase.machine.nextId = c.machine.nextId ∧
      c.resolvePhase.fetchPhase.machine.counters = c.machine.counters := by
  obtain ⟨_, _, _, _, e⟩ := fetchPhase_shape c.resolvePhase
  rw [e, ← machine_resolvePhase c]
  exact ⟨rfl, rfl⟩

/-- Every stage moves on. -/
theorem advances_moved (h : c.InPlace) (hready : c.retireHalf.fetchReady = true) :
    ∃ taken, c.Advances
      c.retireHalf.executePhase.decodePhase.resolvePhase.fetchPhase taken := by
  obtain ⟨hi, -, hn, -⟩ := c.machine_retireHalf
  have hfetch := c.fetch_retireHalf
  obtain ⟨hicache, hins, hstatus, htaken⟩ :=
    c.retireHalf.executePhase.decodePhase_takes hready (by
      show c.retireHalf.pipeline.slots.fetch.isFetched = true ∨
        c.retireHalf.pipeline.slots.fetch = .idle
      rw [hfetch]
      exact h.fetch)
  obtain ⟨_, es⟩ := slots_decodePhase c.retireHalf.executePhase
  have ho := c.outline_moved (d := c.retireHalf.executePhase.decodePhase) (by rw [es])
    (by rw [es]; rfl)
  have htraffic := traffic_fetchPhase c.retireHalf.executePhase.decodePhase.resolvePhase
  rw [machine_resolvePhase, hicache] at htraffic
  have hplace : c.retireHalf.executePhase.decodePhase.resolvePhase.fetchPhase.InPlace := by
    refine ⟨inPlace_fetchPhase _, ?_⟩
    obtain ⟨_, _, _, _, e⟩ :=
      fetchPhase_shape c.retireHalf.executePhase.decodePhase.resolvePhase
    rw [e]
    show c.retireHalf.executePhase.decodePhase.resolvePhase.pipeline.slots.decode.status ≠ _
    rw [status_resolvePhase]
    exact hstatus
  have hall : ∀ taken, [c.retireHalf.executePhase.decodePhase.pipeline.slots.decode].filter
      (·.isLive) = taken →
      ([c.pipeline.slots.memory].filter (·.isLive) ++
        c.retireHalf.executePhase.decodePhase.resolvePhase.fetchPhase.inFlight).map (·.id) =
      (c.leftOver ++ taken).map (·.id) := by
    intro taken ht
    rw [← ht, ← ids_of_outlines ho, List.map_append, List.map_append, ids_fetched]
  have hins' :
      c.retireHalf.executePhase.decodePhase.resolvePhase.fetchPhase.machine.counters.instructions =
        c.retireHalf.machine.counters.instructions := by
    rw [(counts_fetched _).2]
    exact hins
  have hf : c.retireHalf.executePhase.pipeline.slots.fetch = c.pipeline.slots.fetch := hfetch
  have hs : c.retireHalf.executePhase.machine.counters = c.retireHalf.machine.counters := rfl
  have hx : c.retireHalf.executePhase.machine.icache = c.machine.icache := hi
  have hn' : c.retireHalf.executePhase.machine.nextId = c.machine.nextId := hn
  rw [hx] at htraffic
  rcases htaken with ⟨hd, hq, hid⟩ | ⟨hd, hnum, hq', hq, hid⟩
  · refine ⟨[], hplace, hall _ hd, rfl, ?_, hins', ?_⟩
    · rw [(counts_fetched _).1, hid, hn']
      rfl
    · rw [(counts_fetched _).2, hq, hf, hs, htraffic]
      dsimp only [List.length_nil]
      omega
  · refine ⟨_, hplace, hall _ hd, ?_, ?_, hins', ?_⟩
    · rw [← hn', ← hnum]
      rfl
    · rw [(counts_fetched _).1, hid, hn']
      rfl
    · rw [hf] at hq'
      rw [(counts_fetched _).2, hq, hs, htraffic, hq']
      dsimp only [List.length_cons, List.length_nil, Bool.toNat_true]
      omega

theorem advances_movingCycle (h : c.InPlace) : ∃ taken, c.Advances c.movingCycle taken := by
  rcases c.retireHalf.issueHalf_cases with ⟨k, -, e⟩ | ⟨-, -, e⟩ | ⟨-, hready, e⟩
  · exact ⟨[], by rw [movingCycle, e]; exact advances_hold h k⟩
  · exact ⟨[], by rw [movingCycle, e]; exact advances_await h⟩
  · rw [movingCycle, e]
    exact advances_moved h hready

/-- A moving cycle retires one instruction at most, and accounts for every other. -/
theorem Balanced.movingCycle (h : c.Balanced) {taken : List Instruction} {d : Core}
    (hplace : c.InPlace) (ha : c.Advances d taken) : d.Balanced := by
  have hids := congrArg List.length ha.ids
  simp only [List.length_map, List.length_append, length_filter_live] at hids
  have hleft := length_leftOver c hplace
  have htraffic := ha.traffic
  have hins := ha.instructions
  rw [counters_retireHalf] at htraffic hins
  dsimp only at htraffic hins
  unfold Balanced at h ⊢
  omega

/-- A moving cycle keeps the numbers in order: what it takes over gets the next ones. -/
theorem Numbered.movingCycle {retired : List Instruction} (h : Numbered retired c)
    {taken : List Instruction} {d : Core} (ha : c.Advances d taken) :
    Numbered (retired ++ [c.pipeline.slots.memory].filter (·.isLive)) d := by
  unfold Numbered at h ⊢
  have hids : (retired ++ [c.pipeline.slots.memory].filter (·.isLive) ++ d.inFlight).map (·.id) =
      (retired ++ c.leftOver).map (·.id) ++ List.range' c.machine.nextId taken.length := by
    rw [List.append_assoc, List.map_append, ha.ids, List.map_append, List.map_append, ha.numbered,
      List.append_assoc]
  have hsub : ((retired ++ c.leftOver).map (·.id) ++ [c.machine.nextId]).Sublist
      ((retired ++ c.inFlight).map (·.id) ++ [c.machine.nextId]) :=
    ((c.leftOver_sublist.append_left _).map _).append_right _
  have hrange : List.range' c.machine.nextId taken.length ++ [d.machine.nextId] =
      List.range' c.machine.nextId (taken.length + 1) := by
    rw [ha.nextId, List.range'_concat, Nat.one_mul]
  obtain ⟨hold, -, hlt⟩ := List.pairwise_append.mp (h.sublist hsub)
  rw [hids, List.append_assoc, hrange, List.pairwise_append]
  refine ⟨hold, List.pairwise_lt_range', ?_⟩
  intro a ha b hb
  have := hlt a ha _ (List.mem_singleton.mpr rfl)
  have := (List.mem_range'_1.mp hb).1
  omega

end Cycle

section Run

/-- The invariant of a run: the slots are as they should be, and every word is accounted for
once. -/
structure Conserved (retired : List Instruction) (c : Core) : Prop where
  inPlace : c.InPlace
  balanced : c.Balanced
  numbered : Numbered retired c

variable {c : Core} {retired : List Instruction}

theorem Conserved.tick (h : Conserved retired c) : Conserved (retired ++ c.retiring) c.tick := by
  cases hs : c.pipeline.status.isTerminal with
  | true =>
    rw [tick_of_terminal hs, retiring_of_terminal hs, List.append_nil]
    exact h
  | false =>
    have hs := RunStatus.eq_success hs
    rcases Nat.eq_zero_or_pos c.pipeline.control.memStall with hm | hm
    · rw [retiring_of_moving hs hm, tick_of_moving hs hm]
      have hc : Conserved retired c.countCycle :=
        ⟨⟨h.inPlace.fetch, h.inPlace.decode⟩, h.balanced, h.numbered⟩
      obtain ⟨taken, ha⟩ := advances_movingCycle hc.inPlace
      exact ⟨ha.inPlace, hc.balanced.movingCycle hc.inPlace ha, hc.numbered.movingCycle ha⟩
    · rw [retiring_of_frozen hs hm, tick_of_frozen hs hm, List.append_nil]
      exact ⟨⟨h.inPlace.fetch, h.inPlace.decode⟩, h.balanced, h.numbered⟩

theorem Conserved.run {c : Core} (h : Conserved [] c) (n : Nat) :
    Conserved (Core.retired n c) (runTicks n c) := by
  induction n with
  | zero => exact h
  | succ n ih =>
    rw [retired_one_more, runTicks_one_more]
    exact ih.tick

theorem conserved_core {m : Machine} (h : m.stats = {}) : Conserved [] m.core where
  inPlace := ⟨.inr rfl, nofun⟩
  balanced := by
    have hh : m.icache.hits = 0 := congrArg Stats.icacheHits h
    have hm : m.icache.misses = 0 := congrArg Stats.icacheMisses h
    have hi : m.counters.instructions = 0 := congrArg (fun s => s.instructions) h
    have hq : m.counters.squashed = 0 := congrArg (fun s => s.squashed) h
    show m.icache.hits + m.icache.misses = m.counters.instructions + m.counters.squashed + 0 + 0
    rw [hh, hm, hi, hq]
  numbered := List.pairwise_singleton _ _

end Run

end Core

/-- No instruction is lost or duplicated, whatever the program does: the words that have been
fetched are those that have retired, were thrown away, or are still in a slot, and the numbers of
the instructions that have retired and of those in memory, execute and decode increase in this
order. -/
theorem no_instruction_lost {m : Machine} (h : m.stats = {}) (n : Nat) :
    (Core.runTicks n m.core).machine.icache.hits + (Core.runTicks n m.core).machine.icache.misses =
      (Core.runTicks n m.core).machine.counters.instructions
        + (Core.runTicks n m.core).machine.counters.squashed
        + (Core.runTicks n m.core).pipeline.slots.fetch.isFetched.toNat
        + (Core.runTicks n m.core).inFlight.length ∧
    ((Core.retired n m.core ++ (Core.runTicks n m.core).inFlight).map (·.id)).Pairwise (· < ·) := by
  have hrun := (Core.conserved_core h).run n
  exact ⟨hrun.balanced, hrun.numbered.sublist (List.sublist_append_left _ _)⟩

theorem no_instruction_lost_storing :
    Machine.storing.stats = {} ∧
      (Core.runTicks 12 Machine.storing.core).machine.icache.hits
          + (Core.runTicks 12 Machine.storing.core).machine.icache.misses =
        (Core.runTicks 12 Machine.storing.core).machine.counters.instructions
          + (Core.runTicks 12 Machine.storing.core).machine.counters.squashed
          + (Core.runTicks 12 Machine.storing.core).pipeline.slots.fetch.isFetched.toNat
          + (Core.runTicks 12 Machine.storing.core).inFlight.length ∧
      ((Core.retired 12 Machine.storing.core
        ++ (Core.runTicks 12 Machine.storing.core).inFlight).map (·.id)).Pairwise (· < ·) :=
  ⟨rfl, no_instruction_lost rfl 12⟩

end FiveStage
