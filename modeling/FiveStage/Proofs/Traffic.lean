import FiveStage.Proofs.Conservation
import FiveStage.Proofs.Halting

/-! # What retires determines the traffic of the caches

The addresses that a run presents to its caches, observed cycle by cycle (`Core.fetches`,
`Core.accesses`), are those of the instructions that retire: their successors for the instruction
cache, their accesses for the data cache. Stalls and wrong paths leave no trace, and the hits and
the misses of a run are those of these two sequences (`retired_determine_traffic`). -/

namespace FiveStage

open Instruction

/-- The addresses of the loads and stores among some instructions. -/
def dataAddresses (is : List Instruction) : List Word :=
  (is.filter fun i => i.isLoad || i.isStore).map (·.memAddress)

theorem dataAddresses_append (is js : List Instruction) :
    dataAddresses (is ++ js) = dataAddresses is ++ dataAddresses js := by
  simp [dataAddresses]

theorem dataAddresses_slot (i : Instruction) :
    dataAddresses ([i].filter (·.isLive)) =
      if Machine.accessesMemory i then [i.memAddress] else [] := by
  unfold Machine.accessesMemory dataAddresses
  cases hl : i.isLive with
  | false => simp [hl]
  | true => cases ha : (i.isLoad || i.isStore) <;> simp [hl, ha]

namespace Core

/-- The address presented to the data cache in the next cycle, if any: that of the instruction that
has then passed the memory stage. -/
def accesses (c : Core) : List Word :=
  c.machine.dcache.presented c.tick.machine.dcache c.tick.pipeline.slots.memory.memAddress

/-- An access that does not fail goes to the data cache. -/
theorem dcache_memoryStage (m : Machine) (i : Instruction)
    (hf : (m.memoryStage i).1.memFault = false) :
    (m.memoryStage i).2.dcache =
      if Machine.accessesMemory i then m.dcache.access i.memAddress else m.dcache := by
  unfold Machine.memoryStage at hf ⊢
  cases ha : Machine.accessesMemory i with
  | false => rfl
  | true =>
    rw [ha, if_pos rfl] at hf
    by_cases hfit : i.Fits m.memory
    · rw [if_pos rfl, if_pos rfl, if_pos hfit]
    · rw [if_neg hfit] at hf
      cases hf

theorem access_memoryStage (m : Machine) (i : Instruction) :
    (m.memoryStage i).1.memAddress = i.memAddress ∧
      Machine.accessesMemory (m.memoryStage i).1 = Machine.accessesMemory i := by
  unfold Machine.memoryStage
  (repeat' split) <;> exact ⟨rfl, rfl⟩

/-- The memory stage presents the address of a load or store, unless the access fails. -/
theorem presented_memoryStage (m : Machine) (i : Instruction)
    (hf : (m.memoryStage i).1.memFault = false) :
    m.dcache.presented (m.memoryStage i).2.dcache (m.memoryStage i).1.memAddress =
        dataAddresses ([(m.memoryStage i).1].filter (·.isLive)) ∧
      (m.memoryStage i).2.dcache =
        m.dcache.feed (dataAddresses ([(m.memoryStage i).1].filter (·.isLive))) := by
  obtain ⟨haddr, hacc⟩ := access_memoryStage m i
  rw [dataAddresses_slot, dcache_memoryStage m i hf, haddr, hacc]
  cases Machine.accessesMemory i with
  | false => exact ⟨Cache.presented_self _ _, rfl⟩
  | true => exact ⟨Cache.presented_access _ _ _, rfl⟩

/-- The run has presented the addresses of what has retired or is about to, and of nothing else. -/
structure OnData (dcache : Cache) (passed : List Word) (retired : List Instruction) (c : Core) :
    Prop where
  passes : passed = dataAddresses (retired ++ [c.pipeline.slots.memory].filter (·.isLive))
  dcache : c.machine.dcache = dcache.feed passed

variable {c : Core} {dcache : Cache} {passed : List Word} {retired : List Instruction}

theorem OnData.movingCycle (h : c.OnData dcache passed retired) (hf : c.faults = false)
    (hissue : c.retireHalf.Issue) :
    c.movingCycle.OnData dcache
      (passed ++ c.machine.dcache.presented c.movingCycle.machine.dcache
        c.movingCycle.pipeline.slots.memory.memAddress)
      (retired ++ [c.pipeline.slots.memory].filter (·.isLive)) := by
  have hdcache : c.writebackPhase.machine.dcache = c.machine.dcache := dcache_writebackStage _ _
  obtain ⟨h1, h2⟩ := presented_memoryStage c.writebackPhase.machine
    (c.pipeline.slots.execute.forwardStoreData c.pipeline.slots.memory) hf
  have hslot : c.movingCycle.pipeline.slots.memory =
      c.writebackPhase.accessPhase.pipeline.slots.memory := by
    refine (issueHalf_slots c.retireHalf).2.trans ?_
    rw [retireHalf_of_not_faults hf]
  have hd : c.movingCycle.machine.dcache = c.writebackPhase.accessPhase.machine.dcache := by
    refine hissue.keeps.1.trans ?_
    rw [retireHalf_of_not_faults hf]
  rw [hdcache] at h1 h2
  rw [hslot, hd]
  change c.machine.dcache.presented c.writebackPhase.accessPhase.machine.dcache
    c.writebackPhase.accessPhase.pipeline.slots.memory.memAddress = _ at h1
  change c.writebackPhase.accessPhase.machine.dcache = _ at h2
  rw [h1]
  refine ⟨?_, ?_⟩
  · rw [dataAddresses_append, ← h.passes, hslot]
    rfl
  · rw [hd, h2, Cache.feed_append, ← h.dcache]

theorem OnData.tick (h : c.OnData dcache passed retired) (ho : c.Orderly)
    (hx : c.tick.machine.counters.exceptions = 0) :
    c.tick.OnData dcache (passed ++ c.accesses) (retired ++ c.retiring) := by
  cases ht : c.pipeline.status.isTerminal with
  | true =>
    rw [accesses, tick_of_terminal ht, retiring_of_terminal ht, Cache.presented_self,
      List.append_nil, List.append_nil]
    exact h
  | false =>
    have hs := RunStatus.eq_success ht
    rcases Nat.eq_zero_or_pos c.pipeline.control.memStall with hm | hm
    · rw [accesses, retiring_of_moving hs hm]
      rw [tick_of_moving hs hm] at hx ⊢
      obtain ⟨hf, -, hissue⟩ := ho.countCycle.halves hx
      have hc : c.countCycle.OnData dcache passed retired := ⟨h.passes, h.dcache⟩
      exact hc.movingCycle hf hissue
    · have hsame : c.machine.dcache.presented c.countCycle.frozenCycle.machine.dcache
          c.countCycle.frozenCycle.pipeline.slots.memory.memAddress = [] :=
        Cache.presented_self _ _
      rw [accesses, tick_of_frozen hs hm, retiring_of_frozen hs hm, hsame, List.append_nil,
        List.append_nil]
      exact ⟨h.passes, h.dcache⟩

theorem OnData.run {c : Core} (h : c.OnData c.machine.dcache [] []) (ho : c.Orderly) (n : Nat)
    (hx : (runTicks n c).machine.counters.exceptions = 0) :
    (runTicks n c).OnData c.machine.dcache (stream accesses n c) (Core.retired n c) := by
  induction n with
  | zero => exact h
  | succ n ih =>
    rw [runTicks_one_more] at hx
    have hx' := Nat.le_zero.mp (hx ▸ exceptions_le_tick (runTicks n c))
    rw [stream_one_more, runTicks_one_more, retired_one_more]
    exact (ih hx').tick (ho.run n hx') hx

end Core

/-- Two caches that hit and miss alike. -/
structure Cache.Alike (c d : Cache) : Prop where
  sets : c.sets = d.sets
  blockBytes : c.geometry.blockBytes = d.geometry.blockBytes
  hits : c.hits = d.hits
  misses : c.misses = d.misses

namespace Cache.Alike

variable {c d : Cache}

theorem access (h : c.Alike d) (addr : Word) : (c.access addr).Alike (d.access addr) := by
  have hblock : c.block addr = d.block addr := by
    unfold block offsetBits
    rw [h.blockBytes]
  have hindex : c.index addr = d.index addr := by
    unfold index indexBits
    rw [hblock, h.sets]
  have htag : c.tag addr = d.tag addr := by
    unfold tag indexBits
    rw [hblock, h.sets]
  have hcontains : c.contains addr = d.contains addr := by
    unfold contains setTags
    rw [hindex, htag, h.sets]
  unfold Cache.access
  rw [hcontains, hindex, htag]
  split
  · exact ⟨by rw [h.sets], h.blockBytes, by rw [h.hits], h.misses⟩
  · exact ⟨by rw [h.sets], h.blockBytes, h.hits, by rw [h.misses]⟩

theorem feed (h : c.Alike d) (addrs : List Word) : (c.feed addrs).Alike (d.feed addrs) := by
  induction addrs generalizing c d with
  | nil => exact h
  | cons addr addrs ih => exact ih (h.access addr)

end Cache.Alike

/-- The latency of a cache and its name have no part in whether it can be built. -/
theorem Geometry.validate_missLatency {g : Geometry} {owner : String}
    (h : g.validate owner = .ok ()) (owner' : String) (latency : Nat) :
    ({ g with missLatency := latency } : Geometry).validate owner' = .ok () := by
  have hbytes : ({ g with missLatency := latency } : Geometry).setBytes = g.setBytes := rfl
  have hsets : ({ g with missLatency := latency } : Geometry).sets = g.sets := rfl
  unfold validate at h ⊢
  rw [hbytes, hsets]
  grind

theorem Config.validate_caches {c : Config} (h : c.validate = .ok ()) :
    c.instructionCache.validate instructionCacheName = .ok () ∧
      c.dataCache.validate dataCacheName = .ok () := by
  unfold validate at h
  split at h
  next => cases h
  next hi =>
    split at h
    next => cases h
    next hd => exact ⟨hi, hd⟩

/-- A cache of an accepted shape can be built with any latency, and is empty. -/
theorem Cache.exists_build {g : Geometry} {owner : String} (h : g.validate owner = .ok ())
    (name : String) (latency : Nat) :
    ∃ cache, build name { g with missLatency := latency } = .ok cache ∧
      ({ name := owner, geometry := g,
         sets := Array.replicate g.sets { ways := g.ways } } : Cache).Alike cache := by
  refine ⟨{ name, geometry := { g with missLatency := latency }
            sets := Array.replicate g.sets { ways := g.ways } }, ?_, ⟨rfl, rfl, rfl, rfl⟩⟩
  unfold build
  rw [Geometry.validate_missLatency h name latency]
  rfl

/-- The caches of a fresh machine are as empty as any of their shape, whatever their latencies. -/
theorem Machine.Fresh.exists_build {m : Machine} (h : m.Fresh) (name : String) (latency : Nat) :
    (∃ cache, Cache.build name { m.icache.geometry with missLatency := latency } = .ok cache ∧
        m.icache.Alike cache) ∧
      ∃ cache, Cache.build name { m.dcache.geometry with missLatency := latency } = .ok cache ∧
        m.dcache.Alike cache := by
  obtain ⟨c, hc, e⟩ := h.eq_ofConfig
  obtain ⟨hi, hd⟩ := Config.validate_caches hc
  rw [e]
  exact ⟨Cache.exists_build hi name latency, Cache.exists_build hd name latency⟩

/-- What retires in a run that halts determines what the run presents to its caches: to the
instruction cache the start, and for each instruction in front of the halt word the next word and
then its successor, if that is another; to the data cache the addresses of its loads and stores. The
hits and the misses are thus those of these two sequences in empty caches, whatever the latencies,
and every word that is fetched retires or is thrown away. -/
theorem retired_determine_traffic {m : Machine} (h : m.Fresh) {n : Nat}
    (hn : (Core.runTicks n m.core).pipeline.status = .halt) :
    ∃ rs last, Core.retired n m.core = rs ++ [last] ∧ last.flags.halt = true ∧
      (∀ i ∈ rs, i.flags.halt = false) ∧
      Core.stream Core.fetches n m.core = m.pc :: rs.flatMap followed ∧
      Core.stream Core.accesses n m.core = dataAddresses (rs ++ [last]) ∧
      (∀ name latency, ∃ icache dcache,
        Cache.build name { m.icache.geometry with missLatency := latency } = .ok icache ∧
        Cache.build name { m.dcache.geometry with missLatency := latency } = .ok dcache ∧
        (Core.runTicks n m.core).machine.icache.hits =
          (icache.feed (m.pc :: rs.flatMap followed)).hits ∧
        (Core.runTicks n m.core).machine.icache.misses =
          (icache.feed (m.pc :: rs.flatMap followed)).misses ∧
        (Core.runTicks n m.core).machine.dcache.hits =
          (dcache.feed (dataAddresses (rs ++ [last]))).hits ∧
        (Core.runTicks n m.core).machine.dcache.misses =
          (dcache.feed (dataAddresses (rs ++ [last]))).misses) ∧
      (Core.runTicks n m.core).machine.icache.hits +
          (Core.runTicks n m.core).machine.icache.misses =
        (Core.runTicks n m.core).machine.counters.instructions
          + (Core.runTicks n m.core).machine.counters.squashed := by
  obtain ⟨hx, s, hr, hh⟩ := h.of_halt hn
  have he := hr.consistent.emptied hh
  obtain ⟨rs, last, hrs, hlast, hbefore⟩ := hr.run.ends_with_halt rfl hh
  obtain ⟨hroute, hicache⟩ := h.route hn
  have hfetches : Core.stream Core.fetches n m.core = m.pc :: rs.flatMap followed := by
    have hpasses := hroute.passes
    rw [hrs, Option.toList_none, List.append_nil, List.flatMap_append, List.flatMap_singleton,
      behind, hlast, if_pos rfl, List.append_nil, flatMap_behind hbefore] at hpasses
    exact hpasses
  have hdata := Core.OnData.run (c := m.core) ⟨rfl, rfl⟩ m.orderly n hx
  have haccesses : Core.stream Core.accesses n m.core = dataAddresses (rs ++ [last]) := by
    rw [hdata.passes, hrs]
    simp [he.memory]
  have hdcache := hdata.dcache
  have hbalanced := ((Core.conserved_core h.stats).run n).balanced
  refine ⟨rs, last, hrs, hlast, hbefore, hfetches, haccesses, ?_, ?_⟩
  · intro name latency
    obtain ⟨⟨icache, hib, hi⟩, dcache, hdb, hd⟩ := h.exists_build name latency
    rw [hicache, hdcache, hfetches, haccesses]
    have hi' := hi.feed (m.pc :: rs.flatMap followed)
    have hd' := hd.feed (dataAddresses (rs ++ [last]))
    exact ⟨icache, dcache, hib, hdb, hi'.hits, hi'.misses, hd'.hits, hd'.misses⟩
  · unfold Core.Balanced at hbalanced
    rw [he.inFlight_eq, he.fetch] at hbalanced
    exact hbalanced

theorem retired_determine_traffic_storing :
    Machine.storing.Fresh ∧ (Core.runTicks 30 Machine.storing.core).pipeline.status = .halt ∧
      ∃ rs last, Core.retired 30 Machine.storing.core = rs ++ [last] ∧
        Core.stream Core.fetches 30 Machine.storing.core = 0 :: rs.flatMap followed ∧
        Core.stream Core.accesses 30 Machine.storing.core = dataAddresses (rs ++ [last]) := by
  have h : Machine.storing.Fresh := Machine.fresh_ofConfig rfl _ _
  have hn : (Core.runTicks 30 Machine.storing.core).pipeline.status = .halt := by decide +kernel
  obtain ⟨rs, last, hrs, -, -, hfetches, haccesses, -⟩ := retired_determine_traffic h hn
  exact ⟨h, hn, rs, last, hrs, hfetches, haccesses⟩

end FiveStage
