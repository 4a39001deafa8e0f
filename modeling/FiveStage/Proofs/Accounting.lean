import FiveStage.Proofs.Halting

/-! # Every cycle has one cause

In a run without exceptions every cycle is charged to one cause: an instruction that is decoded, a
word that is thrown away, a stall, the first fetch, or one of the three cycles behind the halt word
in which the pipeline runs empty. What the cycles of a run add up to (`Core.due`) thus grows by one
in each of them (`Accounted.tick`). The stall cycles of a cache in turn are those its misses
cost. -/

namespace FiveStage

open Instruction

/-- The cycles lost to stalls and to words thrown away. -/
def Counters.lost (k : Counters) : Nat :=
  k.loadUseStalls + k.controlStalls + k.icacheStallCycles + k.dcacheStallCycles + k.squashed

namespace Core

/-- How many cycles the pipeline has been running empty, once the halt word has moved on. -/
def drain (c : Core) : Nat :=
  if c.pipeline.control.fetchHalted then
    if c.pipeline.slots.decode.isLive then 0
    else if c.pipeline.slots.execute.isLive then 1
    else if c.pipeline.slots.memory.isLive then 2
    else 3
  else 0

/-- The cycles there is a cause for. -/
def due (c : Core) : Nat :=
  c.machine.counters.instructions + c.inFlight.length + c.begun.toNat + c.drain
    + c.machine.counters.lost

section Phases

variable {c d : Core}

theorem drain_of_fetching (h : c.pipeline.control.fetchHalted = false) : c.drain = 0 :=
  if_neg (by simp [h])

theorem drain_of_decode (h : c.pipeline.slots.decode.isLive = true) : c.drain = 0 := by
  unfold drain
  rw [if_pos h, ite_self]

/-- The halt word waits for nothing. -/
theorem Orderly.not_held (h : c.Orderly) (hh : c.pipeline.control.fetchHalted = true) :
    c.hold? = none := by
  obtain ⟨-, -, h1, h2⟩ := h.resting hh
  have hp : c.pipeline.control.controlPending = false := by
    apply Bool.eq_false_iff.mpr
    intro hp
    rw [(h.waiting hp).2.1] at hh
    cases hh
  have hhazard : loadUseHazard c.pipeline.slots.memory c.pipeline.slots.decode = false := by
    unfold loadUseHazard
    cases c.pipeline.slots.memory.dest with
    | none => simp
    | some rd => simp [reads, h1, h2]
  rw [hold?, hp, hhazard]
  rfl

/-- While the halt word is underway some slot is live. -/
theorem live_of_resting {s : Sequential} (h : Consistent s c) (ho : c.Orderly)
    (hs : c.pipeline.status = .success) (hh : c.pipeline.control.fetchHalted = true) :
    c.pipeline.slots.memory.isLive = true ∨ c.pipeline.slots.execute.isLive = true ∨
      c.pipeline.slots.decode.isLive = true := by
  have hrun := h.running hs
  have hstop : (c.decodePoint s).halted = true := by
    cases h.frontEnd with
    | resting _ _ _ _ h5 => exact h5
    | starting _ _ _ h4 => exact absurd (h4.symm.trans hh) (by decide)
    | following _ _ _ h4 => exact absurd (h4.symm.trans hh) (by decide)
    | waiting _ _ _ h4 => exact absurd (h4.symm.trans hh) (by decide)
    | steering _ _ h3 => exact absurd ((ho.resting hh).1.symm.trans h3) nofun
  apply Classical.byContradiction
  intro hnone
  simp only [not_or, Bool.not_eq_true] at hnone
  obtain ⟨hm, he, hd⟩ := hnone
  rw [decodePoint, executePoint, memoryPoint, Sequential.pass_of_not_live _ hm,
    Sequential.foresee_of_not_live _ he, Sequential.foresee_of_not_live _ hd, hrun] at hstop
  cases hstop

end Phases

section Cycle

variable {c d r : Core}

/-- What is in flight when the instructions have moved on. -/
theorem length_moved (hr : c.retireHalf = r) (hleft : c.leftOver = c.inFlight)
    (he : d.pipeline.slots.execute = r.executePhase.pipeline.slots.execute)
    (hm : d.pipeline.slots.memory = r.pipeline.slots.memory) :
    c.pipeline.slots.memory.isLive.toNat + d.inFlight.length =
      c.inFlight.length + d.pipeline.slots.decode.isLive.toNat := by
  subst hr
  have := congrArg List.length (c.outline_moved he hm)
  rwa [hleft, List.length_map, List.length_map, List.length_append, List.length_append,
    length_filter_live, length_filter_live] at this

theorem length_held (hr : c.retireHalf = r) (hleft : c.leftOver = c.inFlight) (k : Hold) :
    c.pipeline.slots.memory.isLive.toNat + (r.holdPhase k).inFlight.length =
      c.inFlight.length := by
  subst hr
  have := congrArg List.length (c.outline_holdPhase k)
  rwa [hleft, List.length_map, List.length_map, List.length_append, length_filter_live] at this

theorem length_resolvePhase (c : Core) : c.resolvePhase.inFlight.length = c.inFlight.length := by
  have := congrArg List.length c.ids_resolvePhase
  rwa [List.length_map, List.length_map] at this

/-- A phase that counts some lost cycles, and nothing else. -/
structure Loses (c d : Core) (lost : Nat) : Prop where
  cycles : d.machine.counters.cycles = c.machine.counters.cycles
  instructions : d.machine.counters.instructions = c.machine.counters.instructions
  lost : d.machine.counters.lost = c.machine.counters.lost + lost

theorem loses_holdPhase (c : Core) (k : Hold) : c.Loses (c.holdPhase k) 1 := by
  cases k with
  | loadUse =>
    refine ⟨rfl, rfl, ?_⟩
    simp only [holdPhase, countHold, Counters.lost]
    omega
  | control =>
    refine ⟨rfl, rfl, ?_⟩
    simp only [holdPhase, countHold, Counters.lost]
    omega

theorem loses_awaitFetch (c : Core) : c.Loses c.awaitFetch 1 := by
  refine ⟨rfl, rfl, ?_⟩
  simp only [awaitFetch, Counters.lost]
  omega

theorem loses_redirectPhase (h : c.pipeline.slots.fetch.isFetched = true) (target : Word) :
    c.Loses (c.redirectPhase target) 1 := by
  rw [redirectPhase_eq, h]
  exact ⟨rfl, rfl, rfl⟩

/-- A cycle is charged to what decode takes over, to the first fetch, to running empty or to a
loss. -/
theorem due_succ (taken first empty lost : Nat) (hone : taken + first + empty + lost = 1)
    (hinstructions : d.machine.counters.instructions =
      c.machine.counters.instructions + c.pipeline.slots.memory.isLive.toNat)
    (hlength : c.pipeline.slots.memory.isLive.toNat + d.inFlight.length =
      c.inFlight.length + taken)
    (hbegun : d.begun.toNat = c.begun.toNat + first) (hdrain : d.drain = c.drain + empty)
    (hlost : d.machine.counters.lost = c.machine.counters.lost + lost) : d.due = c.due + 1 := by
  unfold due
  omega

/-- What a moving fetch does not count. -/
theorem due_fetchPhase (c : Core) :
    c.fetchPhase.machine.counters = c.machine.counters ∧ c.fetchPhase.inFlight = c.inFlight ∧
      c.fetchPhase.drain = c.drain := by
  obtain ⟨_, _, _, _, e⟩ := fetchPhase_shape c
  rw [e]
  exact ⟨rfl, rfl, rfl⟩

/-- Behind the halt word the pipeline empties from the back. -/
theorem drain_vacant (hr : c.retireHalf = r) (hf : c.faults = false)
    (hh : c.pipeline.control.fetchHalted = true)
    (hlive : c.pipeline.slots.memory.isLive = true ∨ c.pipeline.slots.execute.isLive = true ∨
      c.pipeline.slots.decode.isLive = true) :
    (r.executePhase.setDecode .idle).drain = c.drain + 1 := by
  have he : (r.executePhase.setDecode .idle).pipeline.slots.execute.isLive =
      c.pipeline.slots.decode.isLive := by
    refine (isLive_execute_executePhase r).trans ?_
    rw [← hr, slots_retireHalf, not_flushes_of_not_faults hf]
    rfl
  have hm : (r.executePhase.setDecode .idle).pipeline.slots.memory.isLive =
      c.pipeline.slots.execute.isLive := by
    rw [← (retireHalf_slots c).2.1, hr]
    rfl
  have hd : (r.executePhase.setDecode .idle).pipeline.slots.decode.isLive = false := rfl
  have hh' : (r.executePhase.setDecode .idle).pipeline.control.fetchHalted = true := by
    rw [← hh]
    show r.pipeline.control.fetchHalted = _
    rw [← hr, retireHalf_of_not_faults hf]
    rfl
  unfold drain
  rw [he, hm, hd, hh, hh']
  cases hdl : c.pipeline.slots.decode.isLive with
  | true => rfl
  | false =>
    cases hel : c.pipeline.slots.execute.isLive with
    | true => rfl
    | false =>
      cases hml : c.pipeline.slots.memory.isLive with
      | true => rfl
      | false => simp [hdl, hel, hml] at hlive

/-- What the first half of a cycle leaves of the accounts: what is in memory is counted, nothing is
lost and nothing begun. -/
structure FirstHalf (c r : Core) : Prop where
  eq : c.retireHalf = r
  cycles : r.machine.counters.cycles = c.machine.counters.cycles
  instructions : r.machine.counters.instructions =
    c.machine.counters.instructions + c.pipeline.slots.memory.isLive.toNat
  lost : r.machine.counters.lost = c.machine.counters.lost
  fetchHalted : r.pipeline.control.fetchHalted = c.pipeline.control.fetchHalted
  begun : r.begun = c.begun
  leftOver : c.leftOver = c.inFlight

theorem firstHalf_of_not_faults (hf : c.faults = false) : c.FirstHalf c.retireHalf := by
  have hcount := c.counters_retireHalf
  rw [not_flushes_of_not_faults hf, hf] at hcount
  have hhalted : c.retireHalf.pipeline.control.fetchHalted = c.pipeline.control.fetchHalted := by
    rw [retireHalf_of_not_faults hf]
    rfl
  have hcycles := congrArg Counters.cycles hcount
  have hinstructions := congrArg Counters.instructions hcount
  refine ⟨rfl, hcycles, hinstructions, ?_, hhalted, ?_, (frontEnd_retireHalf hf).2.2.2⟩
  · rw [hcount]
    rfl
  · refine begun_congr ?_ hhalted
    rw [slots_retireHalf]

/-- The second half charges the cycle to one cause. -/
def Charged (c d : Core) : Prop :=
  d.machine.counters.cycles = c.machine.counters.cycles ∧ d.due = c.due + 1

namespace FirstHalf

variable (h : c.FirstHalf r)

include h

theorem drain_eq (hh : r.pipeline.control.fetchHalted = false) : c.drain = 0 :=
  drain_of_fetching (h.fetchHalted.symm.trans hh)

theorem held {k : Hold} (hh : r.pipeline.control.fetchHalted = false) :
    c.Charged (r.holdPhase k).resolvePhase.fetchWait := by
  obtain ⟨h1, h2, h3⟩ := loses_holdPhase r k
  have hd : (r.holdPhase k).resolvePhase.fetchWait.machine.counters =
      (r.holdPhase k).machine.counters :=
    congrArg Machine.counters (machine_resolvePhase _)
  obtain ⟨_, _, _, er⟩ := resolvePhase_shape (r.holdPhase k)
  have hlength := length_resolvePhase (r.holdPhase k)
  refine ⟨by rw [hd, h1, h.cycles],
    due_succ 0 0 0 1 rfl (by rw [hd, h2, h.instructions]) ?_ ?_ ?_ ?_⟩
  · rw [← length_held h.eq h.leftOver k, ← hlength]
    rfl
  · rw [← h.begun, er]
    cases k <;> exact congrArg Bool.toNat (begun_congr rfl rfl)
  · rw [h.drain_eq hh, er]
    cases k <;> exact drain_of_fetching hh
  · rw [hd, h3, h.lost]

theorem awaiting (hh : r.pipeline.control.fetchHalted = false) :
    c.Charged r.executePhase.awaitFetch.fetchWait := by
  obtain ⟨h1, h2, h3⟩ := loses_awaitFetch r.executePhase
  refine ⟨h1.trans h.cycles, due_succ 0 0 0 1 rfl (h2.trans h.instructions) ?_ ?_ ?_ ?_⟩
  · exact length_moved h.eq h.leftOver rfl rfl
  · exact congrArg Bool.toNat ((begun_congr rfl rfl).trans h.begun)
  · rw [h.drain_eq hh]
    exact drain_of_fetching hh
  · exact h3.trans (congrArg (· + 1) h.lost)

theorem turning (hslot : r.pipeline.slots.fetch.isFetched = true)
    (hh : r.pipeline.control.fetchHalted = false) (target : Word) :
    c.Charged (r.executePhase.redirectPhase target).fetchPhase := by
  obtain ⟨h1, h2, h3⟩ := loses_redirectPhase (c := r.executePhase) hslot target
  obtain ⟨hd, hin, hdrain⟩ := due_fetchPhase (r.executePhase.redirectPhase target)
  refine ⟨by rw [hd, h1]; exact h.cycles,
    due_succ 0 0 0 1 rfl (by rw [hd, h2]; exact h.instructions) ?_ ?_ ?_ ?_⟩
  · rw [hin, length_moved (d := r.executePhase.redirectPhase target) h.eq h.leftOver
      (by rw [redirectPhase_eq]) (by rw [redirectPhase_eq]; rfl), redirectPhase_eq]
    exact congrArg (fun b : Bool => _ + b.toNat) (discard_not_live _)
  · rw [begun_fetchPhase, ← h.begun, Core.begun, hslot]
    rfl
  · rw [hdrain, h.drain_eq hh, redirectPhase_eq]
    exact drain_of_fetching rfl
  · rw [hd, h3]
    exact congrArg (· + 1) h.lost

/-- Decode finds nothing because the halt word is underway. -/
theorem emptying (hf : c.faults = false) (hh : c.pipeline.control.fetchHalted = true)
    (hlive : c.pipeline.slots.memory.isLive = true ∨ c.pipeline.slots.execute.isLive = true ∨
      c.pipeline.slots.decode.isLive = true) :
    c.Charged (r.executePhase.setDecode .idle).fetchPhase := by
  obtain ⟨hd, hin, hdrain⟩ := due_fetchPhase (r.executePhase.setDecode .idle)
  refine ⟨by rw [hd]; exact h.cycles,
    due_succ 0 0 1 0 rfl (by rw [hd]; exact h.instructions) ?_ ?_ ?_ ?_⟩
  · rw [hin]
    exact length_moved h.eq h.leftOver rfl rfl
  · rw [begun_fetchPhase, Core.begun, hh, Bool.or_true, Nat.add_zero]
  · rw [hdrain, drain_vacant h.eq hf hh hlive]
  · rw [hd]
    exact h.lost

/-- Decode finds nothing because nothing has been fetched yet. -/
theorem starting (hi : r.pipeline.slots.fetch = .idle)
    (hh : r.pipeline.control.fetchHalted = false) :
    c.Charged (r.executePhase.setDecode .idle).fetchPhase := by
  obtain ⟨hd, hin, hdrain⟩ := due_fetchPhase (r.executePhase.setDecode .idle)
  refine ⟨by rw [hd]; exact h.cycles,
    due_succ 0 1 0 0 rfl (by rw [hd]; exact h.instructions) ?_ ?_ ?_ ?_⟩
  · rw [hin]
    exact length_moved h.eq h.leftOver rfl rfl
  · rw [begun_fetchPhase, ← h.begun, Core.begun, hi, hh]
    rfl
  · rw [hdrain, h.drain_eq hh]
    exact drain_of_fetching hh
  · rw [hd]
    exact h.lost

theorem taking (hi : r.pipeline.slots.fetch.isFetched = true)
    (hh : r.pipeline.control.fetchHalted = false) :
    c.Charged r.executePhase.takeLegal.resolvePhase.fetchPhase := by
  have hlive := (decodedWord_spec (c := r.executePhase) hi).live
  have hlive' : r.executePhase.takeLegal.resolvePhase.pipeline.slots.decode.isLive =
      true := (isLive_decode_resolvePhase _).trans hlive
  obtain ⟨hd, hin, hdrain⟩ := due_fetchPhase r.executePhase.takeLegal.resolvePhase
  rw [machine_resolvePhase] at hd
  refine ⟨by rw [hd]; exact h.cycles,
    due_succ 1 0 0 0 rfl (by rw [hd]; exact h.instructions) ?_ ?_ ?_ ?_⟩
  · rw [hin, length_resolvePhase,
      length_moved (d := r.executePhase.takeLegal) h.eq h.leftOver rfl rfl]
    exact congrArg (fun b : Bool => _ + b.toNat) hlive
  · rw [begun_fetchPhase, ← h.begun, Core.begun, hi]
    rfl
  · rw [hdrain, drain_of_decode hlive', h.drain_eq hh]
  · rw [hd]
    exact h.lost

end FirstHalf

theorem charged_movingCycle {s : Sequential} (hc : Consistent s c) (ho : c.Orderly)
    (hs : c.pipeline.status = .success) (hx : c.movingCycle.machine.counters.exceptions = 0) :
    c.Charged c.movingCycle := by
  obtain ⟨hf, hm, hissue⟩ := ho.halves hx
  have h := firstHalf_of_not_faults hf
  show c.Charged c.retireHalf.issueHalf
  cases hissue with
  | held k hk e =>
    rw [e]
    refine h.held (Bool.eq_false_iff.mpr fun hh => ?_)
    rw [hm.not_held hh] at hk
    cases hk
  | awaiting hk hr hst e =>
    rw [e]
    refine h.awaiting (Bool.eq_false_iff.mpr fun hh => ?_)
    exact absurd (hm.resting hh).2.1 (Nat.ne_of_gt hst)
  | turning target hk hr e =>
    obtain ⟨hslot, hh⟩ := hm.fetched_of_redirect hr
    rw [e]
    exact h.turning hslot hh target
  | vacant hk hr hst hi e =>
    rw [e]
    cases hh : c.pipeline.control.fetchHalted with
    | true => exact h.emptying hf hh (live_of_resting hc ho hs hh)
    | false => exact h.starting hi (h.fetchHalted.trans hh)
  | taking hk hr hst hi hl e =>
    rw [e]
    exact h.taking hi (hm.fetching.of_fetched hi).1

/-- Every cycle has its cause. -/
theorem due_tick {s : Sequential} (hc : Consistent s c) (ho : c.Orderly)
    (hx : c.tick.machine.counters.exceptions = 0) (h : c.machine.counters.cycles = c.due) :
    c.tick.machine.counters.cycles = c.tick.due := by
  cases ht : c.pipeline.status.isTerminal with
  | true =>
    rw [tick_of_terminal ht]
    exact h
  | false =>
    have hs := RunStatus.eq_success ht
    rcases Nat.eq_zero_or_pos c.pipeline.control.memStall with hm | hm
    · rw [tick_of_moving hs hm] at hx ⊢
      obtain ⟨h1, h2⟩ := charged_movingCycle hc.countCycle ho.countCycle hs hx
      rw [h1, h2]
      exact congrArg (· + 1) h
    · rw [tick_of_frozen hs hm]
      have hlost :
          c.countCycle.frozenCycle.machine.counters.lost = c.machine.counters.lost + 1 := by
        simp only [frozenCycle, countCycle, Counters.lost]
        omega
      show c.machine.counters.cycles + 1 = _ + c.inFlight.length + c.begun.toNat + c.drain + _
      rw [hlost, h]
      rfl

end Cycle

section Stalls

variable {c : Core}

/-- The stall cycles of the caches are those that their misses cost. An instruction-cache miss may
be cut short by a redirect, or pass while decode waits. -/
structure Stalls (c : Core) (icache dcache : Geometry) : Prop where
  icacheGeometry : c.machine.icache.geometry = icache
  dcacheGeometry : c.machine.dcache.geometry = dcache
  fetch : c.machine.counters.icacheStallCycles + c.pipeline.control.fetchStall ≤
    c.machine.icache.misses * icache.missLatency
  memory : c.machine.counters.dcacheStallCycles + c.pipeline.control.memStall =
    c.machine.dcache.misses * dcache.missLatency

/-- The memory stage misses the data cache if it does not hit it. -/
theorem misses_memoryStage (m : Machine) (i : Instruction) :
    (m.memoryStage i).2.dcache.misses = m.dcache.misses + (!m.accessHits i).toNat ∧
      (m.memoryStage i).2.dcache.geometry = m.dcache.geometry := by
  unfold Machine.memoryStage Machine.accessHits
  cases ha : Machine.accessesMemory i with
  | false => simp
  | true =>
    by_cases hf : i.Fits m.memory
    · simp only [hf, if_true, decide_true, Bool.and_self, Cache.misses_access,
        Cache.geometry_access, and_self]
    · simp [hf]

/-- The access of a cycle hits the data cache, or has none to make. -/
def hits (c : Core) : Bool :=
  c.writebackPhase.machine.accessHits
    (c.pipeline.slots.execute.forwardStoreData c.pipeline.slots.memory)

/-- The access of a cycle is counted, and stalls for the latency of the cache, if it misses. -/
theorem stall_accessPhase (c : Core) :
    c.writebackPhase.accessPhase.machine.dcache.geometry = c.machine.dcache.geometry ∧
      c.writebackPhase.accessPhase.machine.dcache.misses =
        c.machine.dcache.misses + (!c.hits).toNat ∧
      c.writebackPhase.accessPhase.pipeline.control.memStall =
        if c.hits then c.pipeline.control.memStall else c.machine.dcache.geometry.missLatency := by
  have hdcache : c.writebackPhase.machine.dcache = c.machine.dcache := dcache_writebackStage _ _
  obtain ⟨hmisses, hgeometry⟩ := misses_memoryStage c.writebackPhase.machine
    (c.pipeline.slots.execute.forwardStoreData c.pipeline.slots.memory)
  rw [hdcache] at hmisses hgeometry
  refine ⟨hgeometry, hmisses, ?_⟩
  rw [← hgeometry]
  rfl

variable {icache dcache : Geometry}

/-- The first half of a cycle stalls if its access misses. -/
theorem Stalls.retireHalf (h : c.Stalls icache dcache) (hf : c.faults = false)
    (hm : c.pipeline.control.memStall = 0) : c.retireHalf.Stalls icache dcache := by
  obtain ⟨hi, -, -, hd⟩ := c.machine_retireHalf
  have hcount := c.counters_retireHalf
  obtain ⟨hgeometry, hmisses, hstall⟩ := c.stall_accessPhase
  rw [h.dcacheGeometry, hm] at hstall
  have hmem := h.memory
  rw [hm] at hmem
  rw [retireHalf_of_not_faults hf] at hi hcount ⊢
  refine ⟨by rw [hi]; exact h.icacheGeometry, hgeometry.trans h.dcacheGeometry, ?_, ?_⟩
  · rw [hi, hcount]
    exact h.fetch
  · rw [hcount, hmisses, hstall, Nat.add_mul, ← hmem]
    split
    next hhit => simp [hhit]
    next hhit => simp [hhit]

theorem Stalls.resolvePhase (h : c.Stalls icache dcache) : c.resolvePhase.Stalls icache dcache := by
  obtain ⟨_, _, _, e⟩ := resolvePhase_shape c
  rw [e]
  exact ⟨h.icacheGeometry, h.dcacheGeometry, h.fetch, h.memory⟩

theorem Stalls.fetchWait (h : c.Stalls icache dcache) : c.fetchWait.Stalls icache dcache where
  icacheGeometry := h.icacheGeometry
  dcacheGeometry := h.dcacheGeometry
  fetch := by
    have := h.fetch
    show c.machine.counters.icacheStallCycles + (c.pipeline.control.fetchStall - 1) ≤ _
    exact Nat.le_trans (by omega) this
  memory := h.memory

/-- A moving fetch stalls if it misses. -/
theorem Stalls.fetchPhase (h : c.Stalls icache dcache) (hs : c.pipeline.control.fetchStall = 0) :
    c.fetchPhase.Stalls icache dcache := by
  cases hh : c.pipeline.control.fetchHalted with
  | true =>
    have e : c.fetchPhase =
        { c with pipeline.slots := { c.pipeline.slots with fetch := .idle } } := if_pos hh
    rw [e]
    exact ⟨h.icacheGeometry, h.dcacheGeometry, h.fetch, h.memory⟩
  | false =>
    have hfetch := h.fetch
    rw [hs] at hfetch
    unfold Core.fetchPhase
    rw [if_neg (by simp [hh])]
    refine ⟨(Cache.geometry_access _ _).trans h.icacheGeometry, h.dcacheGeometry, ?_, h.memory⟩
    show c.machine.counters.icacheStallCycles
        + (if c.machine.icache.contains c.machine.pc then c.pipeline.control.fetchStall
          else (c.machine.icache.access c.machine.pc).geometry.missLatency) ≤
      (c.machine.icache.access c.machine.pc).misses * icache.missLatency
    rw [Cache.geometry_access, h.icacheGeometry, Cache.misses_access, hs, Nat.add_mul]
    split
    next hhit => simpa [hhit] using hfetch
    next hhit => simpa [hhit] using hfetch

/-- The second half of a cycle. -/
theorem Stalls.issueHalf (h : c.Stalls icache dcache) (hx : c.Issue) :
    c.issueHalf.Stalls icache dcache := by
  cases hx with
  | held k _ e =>
    have hheld : (c.holdPhase k).Stalls icache dcache := by
      cases k <;> exact ⟨h.icacheGeometry, h.dcacheGeometry, h.fetch, h.memory⟩
    rw [e]
    exact hheld.resolvePhase.fetchWait
  | awaiting _ _ hs e =>
    rw [e]
    refine ⟨h.icacheGeometry, h.dcacheGeometry, ?_, h.memory⟩
    have := h.fetch
    show c.machine.counters.icacheStallCycles + 1 + (c.pipeline.control.fetchStall - 1) ≤ _
    exact Nat.le_trans (by omega) this
  | turning target _ _ e =>
    rw [e, redirectPhase_eq]
    refine Stalls.fetchPhase ⟨h.icacheGeometry, h.dcacheGeometry, ?_, h.memory⟩ rfl
    exact Nat.le_trans (Nat.add_le_add_left (Nat.zero_le _) _) h.fetch
  | vacant _ _ hs _ e =>
    rw [e]
    exact Stalls.fetchPhase ⟨h.icacheGeometry, h.dcacheGeometry, h.fetch, h.memory⟩ hs
  | taking _ _ hs _ _ e =>
    have htake : c.executePhase.takeLegal.Stalls icache dcache :=
      ⟨h.icacheGeometry, h.dcacheGeometry, h.fetch, h.memory⟩
    have hs' : c.executePhase.takeLegal.resolvePhase.pipeline.control.fetchStall = 0 := by
      obtain ⟨_, _, _, er⟩ := resolvePhase_shape c.executePhase.takeLegal
      rw [er]
      exact hs
    rw [e]
    exact htake.resolvePhase.fetchPhase hs'

theorem Stalls.tick (h : c.Stalls icache dcache) (ho : c.Orderly)
    (hx : c.tick.machine.counters.exceptions = 0) : c.tick.Stalls icache dcache := by
  cases ht : c.pipeline.status.isTerminal with
  | true =>
    rw [tick_of_terminal ht]
    exact h
  | false =>
    have hs := RunStatus.eq_success ht
    have hc : c.countCycle.Stalls icache dcache :=
      ⟨h.icacheGeometry, h.dcacheGeometry, h.fetch, h.memory⟩
    rcases Nat.eq_zero_or_pos c.pipeline.control.memStall with hm | hm
    · rw [tick_of_moving hs hm] at hx ⊢
      obtain ⟨hf, -, hissue⟩ := ho.countCycle.halves hx
      exact (hc.retireHalf hf hm).issueHalf hissue
    · rw [tick_of_frozen hs hm]
      refine ⟨h.icacheGeometry, h.dcacheGeometry, hc.fetchWait.fetch, ?_⟩
      have := h.memory
      show c.machine.counters.dcacheStallCycles + 1 + (c.pipeline.control.memStall - 1) = _
      exact Eq.trans (by omega) this

end Stalls

section Run

/-- A cycle with nothing to execute does not miss the data cache. -/
theorem memStall_movingCycle {c : Core} (hf : c.faults = false) (hissue : c.retireHalf.Issue)
    (he : c.pipeline.slots.execute.isLive = false) :
    c.movingCycle.pipeline.control.memStall = c.pipeline.control.memStall := by
  refine hissue.keeps.2.trans ?_
  rw [retireHalf_of_not_faults hf]
  refine if_pos ?_
  have hlive : Machine.accessesMemory
      (c.pipeline.slots.execute.forwardStoreData c.pipeline.slots.memory) = false := by
    rw [Machine.accessesMemory, isLive_forwardStoreData, he]
    rfl
  show c.writebackPhase.machine.accessHits
    (c.pipeline.slots.execute.forwardStoreData c.pipeline.slots.memory) = true
  rw [Machine.accessHits, hlive]
  rfl

/-- The accounts of a run without exceptions. -/
structure Accounted (icache dcache : Geometry) (c : Core) : Prop where
  cycles : c.machine.counters.cycles = c.due
  stalls : c.Stalls icache dcache
  settled : c.pipeline.status.isTerminal = true → c.pipeline.control.memStall = 0

theorem Accounted.tick {icache dcache : Geometry} {c : Core} {s s' : Sequential}
    (h : c.Accounted icache dcache) (ho : c.Orderly) (hc : Consistent s c)
    (hc' : Consistent s' c.tick) (hx : c.tick.machine.counters.exceptions = 0) :
    c.tick.Accounted icache dcache := by
  refine ⟨due_tick hc ho hx h.cycles, h.stalls.tick ho hx, ?_⟩
  intro ht'
  cases ht : c.pipeline.status.isTerminal with
  | true =>
    rw [tick_of_terminal ht]
    exact h.settled ht
  | false =>
    have hs := RunStatus.eq_success ht
    rcases Nat.eq_zero_or_pos c.pipeline.control.memStall with hm | hm
    · -- behind the halt word nothing accesses memory
      have hdone := (hc'.not_live_of_halted (hc'.halted_of_terminal ht')).1
      rw [(tick_slots hs hm).2.1] at hdone
      rw [tick_of_moving hs hm] at hx ⊢
      obtain ⟨hf, -, hissue⟩ := ho.countCycle.halves hx
      exact (memStall_movingCycle hf hissue hdone).trans hm
    · rw [tick_of_frozen hs hm] at ht'
      have hs' : c.countCycle.frozenCycle.pipeline.status = .success := hs
      rw [hs'] at ht'
      cases ht'

theorem accounted_core {m : Machine} (h : m.stats = {}) :
    m.core.Accounted m.icache.geometry m.dcache.geometry := by
  have hk : m.counters = {} := congrArg Stats.toCounters h
  have hi : m.icache.misses = 0 := congrArg Stats.icacheMisses h
  have hd : m.dcache.misses = 0 := congrArg Stats.dcacheMisses h
  refine ⟨?_, ⟨rfl, rfl, ?_, ?_⟩, nofun⟩
  · show m.counters.cycles = m.counters.instructions + 0 + 0 + 0 + m.counters.lost
    rw [hk]
    rfl
  · show m.counters.icacheStallCycles + 0 ≤ _
    rw [hk]
    exact Nat.zero_le _
  · show m.counters.dcacheStallCycles + 0 = m.dcache.misses * _
    rw [hk, hd, Nat.zero_mul]

theorem accounted_run {m : Machine} (h : m.Fresh) (n : Nat)
    (hx : (runTicks n m.core).machine.counters.exceptions = 0) :
    (runTicks n m.core).Accounted m.icache.geometry m.dcache.geometry := by
  induction n with
  | zero => exact accounted_core h.stats
  | succ n ih =>
    have hx' := Nat.le_zero.mp (hx ▸ m.core.exceptions_mono (Nat.le_succ n))
    obtain ⟨s, hr⟩ := h.reached_of_exceptions hx'
    obtain ⟨s', hr'⟩ := h.reached_of_exceptions hx
    have hc' := hr'.consistent
    rw [runTicks_one_more] at hx hc' ⊢
    exact (ih hx').tick (m.orderly.run n hx') hr.consistent hc' hx

end Run

end Core

/-- Every cycle of a run that halts is charged to exactly one cause: an instruction that retires,
one of the four cycles that fill and empty the pipeline, a stall, or a word that is thrown away, one
for every retired branch or jump that does not go on to the next word. Every data-cache miss costs
its whole latency, and an instruction-cache miss no more than that. -/
theorem cycles_accounted_for {m : Machine} (h : m.Fresh) {n : Nat}
    (hn : (Core.runTicks n m.core).pipeline.status = .halt) :
    (Core.runTicks n m.core).machine.counters.cycles =
      (Core.runTicks n m.core).machine.counters.instructions + 4
        + (Core.runTicks n m.core).machine.counters.loadUseStalls
        + (Core.runTicks n m.core).machine.counters.controlStalls
        + (Core.runTicks n m.core).machine.counters.icacheStallCycles
        + (Core.runTicks n m.core).machine.counters.dcacheStallCycles
        + (Core.runTicks n m.core).machine.counters.squashed ∧
    (Core.runTicks n m.core).machine.counters.squashed =
      (Core.retired n m.core).countP (fun i => i.isControl && i.nextPc ≠ i.pc + 4) ∧
    (Core.runTicks n m.core).machine.counters.dcacheStallCycles =
      (Core.runTicks n m.core).machine.dcache.misses * m.dcache.geometry.missLatency ∧
    (Core.runTicks n m.core).machine.counters.icacheStallCycles ≤
      (Core.runTicks n m.core).machine.icache.misses * m.icache.geometry.missLatency := by
  obtain ⟨hx, s, hr, hh⟩ := h.of_halt hn
  have he := hr.consistent.emptied hh
  have hacc := Core.accounted_run h n hx
  have hturns := (h.route hn).1.turns
  have hstall := hacc.settled (by rw [hn]; rfl)
  refine ⟨?_, ?_, ?_, ?_⟩
  · have hdrain : (Core.runTicks n m.core).drain = 3 := by
      simp [Core.drain, he.halted, he.decode, he.execute, he.memory]
    rw [hacc.cycles, Core.due, hdrain, he.inFlight_eq, Core.begun, he.halted, Bool.or_true,
      Counters.lost]
    dsimp only [List.length_nil, Bool.toNat_true]
    omega
  · rw [Option.isSome_none, Bool.toNat_false, Nat.add_zero] at hturns
    rw [hturns]
    refine List.countP_congr fun i hi => ?_
    have hcontrol := hr.run.forall_record (fun i => i.turns = true → i.isControl = true)
      Sequential.isControl_of_turns i hi
    rw [Bool.and_eq_true, decide_eq_true_eq, ← fallThrough_eq, ← turns_iff]
    exact ⟨fun ht => ⟨hcontrol ht, ht⟩, fun ht => ht.2⟩
  · have hmemory := hacc.stalls.memory
    rwa [hstall, Nat.add_zero] at hmemory
  · exact Nat.le_trans (Nat.le_add_right _ _) hacc.stalls.fetch

/-- The three instructions of the storing machine need seventeen cycles, ten of them for misses. -/
theorem cycles_accounted_for_storing :
    Machine.storing.Fresh ∧ (Core.runTicks 30 Machine.storing.core).pipeline.status = .halt ∧
      (Core.runTicks 30 Machine.storing.core).machine.counters.cycles = 17 := by
  have h : Machine.storing.Fresh := Machine.fresh_ofConfig rfl _ _
  have hn : (Core.runTicks 30 Machine.storing.core).pipeline.status = .halt := by decide +kernel
  refine ⟨h, hn, ?_⟩
  rw [(cycles_accounted_for h hn).1]
  decide +kernel

end FiveStage
