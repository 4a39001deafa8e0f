import FiveStage.Proofs.Accounting
import FiveStage.Proofs.Conservation

/-! # The control state of a running pipeline

Whatever a program does, and whatever its memory and its caches held before, what the pipeline
remembers between two cycles fits what its slots hold (`Core.Coherent`): a branch that waits, a
pending redirect, a fetch that rests and a data-cache miss each have the instruction they belong to
in flight, and no miss has more cycles left than its cache takes. Every cycle that does not end the
run keeps this (`Core.Coherent.tick`). Hence the pipeline never deadlocks: something retires, or the
run ends, within the latencies of both caches and the six cycles of the way through the pipeline
(`never_deadlocks`). -/

namespace FiveStage

open Instruction

/-- A live halt word, which ends the run when it retires. -/
def Instruction.ends (i : Instruction) : Bool := i.isLive && i.flags.halt

theorem Instruction.ends_of_outline {i j : Instruction} (h : i.outline = j.outline) :
    i.ends = j.ends := congrArg (fun o => o.ends) h

namespace Core

/-- What the instructions in flight leave to be done: each miss of the data cache, each wait and
each redirect belongs to one of them, and fetch rests only behind a halt word. -/
structure Backed (icache dcache : Geometry) (c : Core) : Prop where
  icacheGeometry : c.machine.icache.geometry = icache
  dcacheGeometry : c.machine.dcache.geometry = dcache
  executeClean : c.pipeline.slots.execute.memFault = false
  decodeClean : c.pipeline.slots.decode.memFault = false
  waiting : c.pipeline.control.controlPending = true → c.pipeline.slots.decode.isLive = true
  steered : c.pipeline.control.redirect.isSome = true → c.pipeline.slots.decode.isLive = true
  resting : c.pipeline.control.fetchHalted = true → c.pipeline.slots.memory.ends = true ∨
    c.pipeline.slots.execute.ends = true ∨ c.pipeline.slots.decode.ends = true
  missing : 0 < c.pipeline.control.memStall → c.pipeline.slots.memory.isLive = true
  memStall : c.pipeline.control.memStall ≤ dcache.missLatency

/-- The control state of a pipeline between two cycles. -/
structure Coherent (icache dcache : Geometry) (c : Core) : Prop extends Backed icache dcache c where
  slot : c.pipeline.slots.fetch.isFetched = true ∨ c.pipeline.slots.fetch = .idle
  vacant : c.pipeline.slots.fetch = .idle → c.pipeline.control.fetchStall = 0
  fetchStall : c.pipeline.control.fetchStall ≤ icache.missLatency

/-- The control state between the two halves of a cycle. A fault has thrown away the instruction in
decode, and decode turns to the handler in the same cycle. -/
structure Midway (icache dcache : Geometry) (c : Core) : Prop where
  icacheGeometry : c.machine.icache.geometry = icache
  dcacheGeometry : c.machine.dcache.geometry = dcache
  decodeClean : c.pipeline.slots.decode.memFault = false
  waiting : c.pipeline.control.controlPending = true → c.pipeline.slots.decode.isLive = true
  resting : c.pipeline.control.fetchHalted = true → c.pipeline.slots.memory.ends = true ∨
    c.pipeline.slots.decode.ends = true ∨
      (c.hold? = none ∧ c.pipeline.control.redirect.isSome = true)
  missing : 0 < c.pipeline.control.memStall → c.pipeline.slots.memory.isLive = true
  memStall : c.pipeline.control.memStall ≤ dcache.missLatency
  slot : c.pipeline.slots.fetch.isFetched = true ∨ c.pipeline.slots.fetch = .idle
  vacant : c.pipeline.slots.fetch = .idle → c.pipeline.control.fetchStall = 0
  fetchStall : c.pipeline.control.fetchStall ≤ icache.missLatency

variable {icache dcache : Geometry} {c : Core}

section Phases

theorem Backed.resolvePhase (h : c.Backed icache dcache) : c.resolvePhase.Backed icache dcache := by
  cases hr : (c.pipeline.control.controlPending &&
      controlReady c.pipeline.slots.decode c.pipeline.slots.execute c.pipeline.slots.memory) with
  | false => rw [show c.resolvePhase = c from if_neg (Bool.eq_false_iff.1 hr)]; exact h
  | true =>
    have hlive := h.waiting ((Bool.and_eq_true _ _).mp hr).1
    rw [show c.resolvePhase = _ from if_pos hr, forward_shape, forward_shape]
    exact { h with
      waiting := nofun
      steered := fun _ => hlive }

/-- A moving fetch fills its slot, and may miss; behind the halt word it rests. -/
theorem Backed.fetchPhase (h : c.Backed icache dcache) (hs : c.pipeline.control.fetchStall = 0) :
    c.fetchPhase.Coherent icache dcache := by
  have hslot := inPlace_fetchPhase c
  cases hh : c.pipeline.control.fetchHalted with
  | true =>
    rw [show c.fetchPhase = _ from if_pos hh] at hslot ⊢
    exact { h with
      slot := hslot
      vacant := fun _ => hs
      fetchStall := Nat.le_trans (Nat.le_of_eq hs) (Nat.zero_le _) }
  | false =>
    rw [show c.fetchPhase = _ from if_neg (Bool.eq_false_iff.1 hh)] at hslot ⊢
    exact { h with
      icacheGeometry := (Cache.geometry_access _ _).trans h.icacheGeometry
      slot := hslot
      vacant := by
        intro hi
        have hstatus := congrArg Instruction.status hi
        change (if _ then SlotStatus.speculative else SlotStatus.normal) =
          SlotStatus.idle at hstatus
        split at hstatus <;> cases hstatus
      fetchStall := by
        change (if c.machine.fetchHits = true then c.pipeline.control.fetchStall
          else (c.machine.icache.access c.machine.pc).geometry.missLatency) ≤ _
        rw [Cache.geometry_access, h.icacheGeometry, hs]
        split
        · exact Nat.zero_le _
        · exact Nat.le_refl _ }

theorem Coherent.resolvePhase (h : c.Coherent icache dcache) :
    c.resolvePhase.Coherent icache dcache := by
  have hb := h.toBacked.resolvePhase
  obtain ⟨_, _, _, e⟩ := resolvePhase_shape c
  rw [e] at hb ⊢
  exact ⟨hb, h.slot, h.vacant, h.fetchStall⟩

theorem Coherent.fetchWait (h : c.Coherent icache dcache) : c.fetchWait.Coherent icache dcache where
  toBacked := { h.toBacked with }
  slot := h.slot
  vacant := fun hi => congrArg (· - 1) (h.vacant hi)
  fetchStall := Nat.le_trans (Nat.sub_le _ _) h.fetchStall

theorem Coherent.frozenCycle (h : c.Coherent icache dcache) :
    c.frozenCycle.Coherent icache dcache where
  toBacked := { h.toBacked with
    missing := fun hm => h.missing (Nat.lt_of_lt_of_le hm (Nat.sub_le _ _))
    memStall := Nat.le_trans (Nat.sub_le _ _) h.memStall }
  slot := h.slot
  vacant := fun hi => congrArg (· - 1) (h.vacant hi)
  fetchStall := Nat.le_trans (Nat.sub_le _ _) h.fetchStall

end Phases

section Halves

/-- When the first half of a cycle does not end the run, no halt word has retired in it, and a
failing access is the first exception. -/
theorem flushes_of_running (h : c.retireHalf.pipeline.status.isTerminal = false) :
    c.pipeline.slots.memory.ends = false ∧ c.flushes = c.faults := by
  have hstatus : c.writebackPhase.accessPhase.pipeline.status.isTerminal = true →
      c.retireHalf.pipeline.status.isTerminal = true := (onward_retireHalf c).terminal
  refine ⟨?_, ?_⟩
  · refine Bool.eq_false_iff.mpr fun hm => Bool.eq_false_iff.mp h (hstatus ?_)
    rw [show c.writebackPhase.accessPhase.pipeline.status =
      if c.pipeline.control.exceptionRaised then .exception else .halt from if_pos hm]
    split <;> rfl
  · rcases c.retireHalf_cases with ⟨hf, -⟩ | ⟨hf, hx, e⟩ | ⟨hf, hx, -⟩
    · rw [flushes, hf]; rfl
    · -- a second exception would have ended the run
      have hr : c.pipeline.control.exceptionRaised = true := by simpa [flushes, hf] using hx
      rw [e, raise_again c.writebackPhase.accessPhase hr] at h
      cases h
    · rw [hf, hx]

/-- The access of a cycle stalls only for a live instruction, and for the latency of the cache. -/
theorem Backed.accessPhase (h : c.Backed icache dcache) (hm : c.pipeline.control.memStall = 0) :
    c.writebackPhase.accessPhase.machine.dcache.geometry = dcache ∧
      (0 < c.writebackPhase.accessPhase.pipeline.control.memStall →
        c.pipeline.slots.execute.isLive = true) ∧
      c.writebackPhase.accessPhase.pipeline.control.memStall ≤ dcache.missLatency := by
  obtain ⟨hgeometry, -, hstall⟩ := c.stall_accessPhase
  rw [hm, h.dcacheGeometry] at hstall
  rw [hstall, hgeometry, h.dcacheGeometry]
  refine ⟨rfl, ?_, ?_⟩
  · split
    · exact fun hlt => absurd hlt (Nat.lt_irrefl 0)
    next hmiss =>
      intro _
      rw [← isLive_forwardStoreData c.pipeline.slots.execute c.pipeline.slots.memory]
      refine Decidable.byContradiction fun hdead => hmiss ?_
      simp [hits, Machine.accessHits, Machine.accessesMemory, hdead]
  · split
    · exact Nat.zero_le _
    · exact Nat.le_refl _

/-- The first half of a cycle, unless it ends the run. -/
theorem Coherent.retireHalf (h : c.Coherent icache dcache)
    (hm : c.pipeline.control.memStall = 0)
    (hrun : c.retireHalf.pipeline.status.isTerminal = false) :
    c.retireHalf.Midway icache dcache := by
  obtain ⟨hends, hflush⟩ := flushes_of_running hrun
  obtain ⟨hdcache, hmissing, hstall⟩ := h.toBacked.accessPhase hm
  obtain ⟨hicache, -, -, hd⟩ := c.machine_retireHalf
  have hout := c.outline_accessPhase
  have hlive : c.writebackPhase.accessPhase.pipeline.slots.memory.isLive =
      c.pipeline.slots.execute.isLive := congrArg (fun o => o.isLive) hout
  have hmemory : c.writebackPhase.accessPhase.pipeline.slots.memory.ends =
      c.pipeline.slots.execute.ends := ends_of_outline hout
  rcases c.retireHalf_cases with ⟨hf, e⟩ | ⟨hf, hx, -⟩ | ⟨-, hx, -⟩
  · rw [e] at hicache hd ⊢
    exact {
      icacheGeometry := by rw [hicache]; exact h.icacheGeometry
      dcacheGeometry := hdcache
      decodeClean := h.decodeClean
      waiting := h.waiting
      resting := by
        intro hh
        rcases h.resting hh with hr | hr | hr
        · exact absurd (hr.symm.trans hends) (by decide)
        · exact .inl (hmemory.trans hr)
        · exact .inr (.inl hr)
      missing := fun hlt => hlive.trans (hmissing hlt)
      memStall := hstall
      slot := h.slot
      vacant := h.vacant
      fetchStall := h.fetchStall }
  · -- a second exception would have ended the run
    exact absurd ((hflush.trans hf).symm.trans hx) (by decide)
  · obtain ⟨hcontrol, -, hfree⟩ := c.retireHalf_of_flushes hx
    have hslots := c.slots_retireHalf
    rw [hx, if_pos rfl] at hslots
    exact {
      icacheGeometry := by rw [hicache]; exact h.icacheGeometry
      dcacheGeometry := by rw [hd]; exact hdcache
      decodeClean := by rw [hslots]; exact discard_clean h.decodeClean
      waiting := by rw [hcontrol]; nofun
      resting := fun _ => .inr (.inr ⟨hfree, by rw [hcontrol]; rfl⟩)
      missing := by rw [hcontrol, hslots]; exact fun hlt => hlive.trans (hmissing hlt)
      memStall := by rw [hcontrol]; exact hstall
      slot := by rw [hslots]; exact h.slot
      vacant := by rw [hcontrol, hslots]; exact h.vacant
      fetchStall := by rw [hcontrol]; exact h.fetchStall }

/-- What a decoded instruction asks of the pipeline leaves everything else alone. -/
theorem dispatch_shape (i : Instruction) :
    ∃ counters status controlPending redirect exceptionRaised fetchHalted,
      c.dispatch i =
        { machine := { c.machine with counters }
          pipeline :=
            { c.pipeline with
              status
              control :=
                { c.pipeline.control with
                  controlPending, redirect, exceptionRaised, fetchHalted } } } ∧
      (fetchHalted = true → c.pipeline.control.fetchHalted = true ∨ i.flags.halt = true) := by
  unfold dispatch raise
  split
  · dsimp only
    split <;> exact ⟨_, _, _, _, _, _, rfl, .inl⟩
  · split
    next hh => exact ⟨_, _, _, _, _, _, rfl, fun _ => .inr hh⟩
    · (repeat' split) <;> exact ⟨_, _, _, _, _, _, rfl, .inl⟩

/-- What is held in decode is an instruction. -/
theorem live_of_hold {k : Hold} (hk : c.hold? = some k)
    (h : c.pipeline.control.controlPending = true → c.pipeline.slots.decode.isLive = true) :
    c.pipeline.slots.decode.isLive = true := by
  cases hp : c.pipeline.control.controlPending with
  | true => exact h hp
  | false =>
    refine Decidable.byContradiction fun hd => ?_
    simp [hold?, hp, loadUseHazard, hd] at hk

/-- An instruction that is held in decode leaves the control state as it is. -/
theorem Midway.holdPhase (h : c.Midway icache dcache) {k : Hold} (hk : c.hold? = some k) :
    (c.holdPhase k).Coherent icache dcache := by
  have hlive := live_of_hold hk h.waiting
  obtain ⟨_, -, -, e⟩ := holdPhase_shape c k
  rw [e]
  exact {
    icacheGeometry := h.icacheGeometry
    dcacheGeometry := h.dcacheGeometry
    executeClean := rfl
    decodeClean := (memFault_forward _ _ _).trans h.decodeClean
    waiting := fun _ => (isLive_forward _ _ _).trans hlive
    steered := fun _ => (isLive_forward _ _ _).trans hlive
    resting := by
      intro hh
      rcases h.resting hh with h' | h' | ⟨h', -⟩
      · exact .inl h'
      · exact .inr (.inr ((ends_of_outline (outline_forward _ _ _)).trans h'))
      · rw [hk] at h'
        cases h'
    missing := h.missing
    memStall := h.memStall
    slot := h.slot
    vacant := h.vacant
    fetchStall := h.fetchStall }

/-- What moves on to execute has not failed. -/
theorem Midway.executeClean (h : c.Midway icache dcache) :
    c.executePhase.pipeline.slots.execute.memFault = false :=
  (memFault_executed _).trans
    ((memFault_forward _ _ _).trans ((memFault_forward _ _ _).trans h.decodeClean))

/-- Unless fetch turns, what lets it rest has moved on to memory and execute. -/
theorem Midway.resting_executePhase (h : c.Midway icache dcache)
    (hr : c.pipeline.control.redirect = none) (hh : c.pipeline.control.fetchHalted = true) :
    c.pipeline.slots.memory.ends = true ∨ c.executePhase.pipeline.slots.execute.ends = true := by
  have executed : c.executePhase.pipeline.slots.execute.outline =
      c.pipeline.slots.decode.outline :=
    (outline_executed _).trans ((outline_forward _ _ _).trans (outline_forward _ _ _))
  rcases h.resting hh with h' | h' | ⟨-, h'⟩
  · exact .inl h'
  · exact .inr ((ends_of_outline executed).trans h')
  · rw [hr] at h'
    cases h'

/-- Nothing that decode holds is waited for when its instruction has moved on and fetch does not
turn. -/
theorem Midway.setDecode (h : c.Midway icache dcache) (hk : c.hold? = none)
    (hr : c.pipeline.control.redirect = none) {i : Instruction} (hi : i.memFault = false) :
    (c.executePhase.setDecode i).Backed icache dcache where
  icacheGeometry := h.icacheGeometry
  dcacheGeometry := h.dcacheGeometry
  executeClean := h.executeClean
  decodeClean := hi
  waiting hp := absurd (hp.symm.trans (MidCycle.not_held hk).1) (by decide)
  steered hx := absurd (hr ▸ hx) (by decide)
  resting hh := (h.resting_executePhase hr hh).imp id .inl
  missing := h.missing
  memStall := h.memStall

/-- Decode turns fetch to another address. -/
theorem Midway.redirectPhase (h : c.Midway icache dcache) (hk : c.hold? = none) (target : Word) :
    (c.executePhase.redirectPhase target).Backed icache dcache := by
  rw [redirectPhase_eq]
  exact {
    icacheGeometry := h.icacheGeometry
    dcacheGeometry := h.dcacheGeometry
    executeClean := h.executeClean
    decodeClean := Executing.discard_fetch_clean h.slot
    waiting := fun hp => absurd (hp.symm.trans (MidCycle.not_held hk).1) (by decide)
    steered := nofun
    resting := nofun
    missing := h.missing
    memStall := h.memStall }

/-- Decode takes over the fetched word, which waits, steers or lets fetch rest on its own
account. -/
theorem Midway.dispatch (h : c.Midway icache dcache) (hr : c.pipeline.control.redirect = none)
    (hf : c.pipeline.slots.fetch.isFetched = true) :
    (({ c.executePhase with
        machine := { c.machine with nextId := c.machine.nextId + 1 } }.dispatch
          c.decodedWord).setDecode c.decodedWord).Backed icache dcache := by
  have hw := decodedWord_spec hf
  obtain ⟨_, _, _, _, _, _, e, hhalt⟩ := dispatch_shape (c :=
    { c.executePhase with machine := { c.machine with nextId := c.machine.nextId + 1 } })
    c.decodedWord
  rw [e]
  exact {
    icacheGeometry := h.icacheGeometry
    dcacheGeometry := h.dcacheGeometry
    executeClean := h.executeClean
    decodeClean := hw.clean
    waiting := fun _ => hw.live
    steered := fun _ => hw.live
    resting := by
      intro hh
      rcases hhalt hh with hh | hh
      · exact (h.resting_executePhase hr hh).imp id .inl
      · exact .inr (.inr (by rw [ends]; exact Bool.and_eq_true_iff.mpr ⟨hw.live, hh⟩))
    missing := h.missing
    memStall := h.memStall }

/-- The second half of a cycle. -/
theorem Midway.issueHalf (h : c.Midway icache dcache) : c.issueHalf.Coherent icache dcache := by
  cases c.course h.slot with
  | held k hk e =>
    rw [e]
    exact (h.holdPhase hk).resolvePhase.fetchWait
  | awaiting hk hr hs e =>
    rw [e]
    have hb := h.setDecode hk hr (i := .bubble) rfl
    exact Coherent.fetchWait ⟨{ hb with }, h.slot, h.vacant, h.fetchStall⟩
  | turning target hk hr e =>
    rw [e]
    exact (h.redirectPhase hk target).fetchPhase (by rw [redirectPhase_eq])
  | vacant hk hr hs hi e =>
    rw [e]
    exact (h.setDecode hk hr rfl).fetchPhase hs
  | taking hk hr hs hi ed e =>
    rw [e, ed]
    refine (h.dispatch hr hi).resolvePhase.fetchPhase ?_
    obtain ⟨_, _, _, _, _, _, es, -⟩ := dispatch_shape (c :=
      { c.executePhase with machine := { c.machine with nextId := c.machine.nextId + 1 } })
      c.decodedWord
    obtain ⟨_, _, _, er⟩ := resolvePhase_shape _
    rw [er, es]
    exact hs

end Halves

section Run

/-- Every cycle that does not end the run keeps the control state coherent. -/
theorem Coherent.tick (h : c.Coherent icache dcache)
    (hrun : c.tick.pipeline.status.isTerminal = false) : c.tick.Coherent icache dcache := by
  have hs := RunStatus.eq_success (running_of_tick hrun)
  have hc : c.countCycle.Coherent icache dcache := { h with }
  rcases Nat.eq_zero_or_pos c.pipeline.control.memStall with hm | hm
  · rw [tick_of_moving hs hm] at hrun ⊢
    have hhalf : c.countCycle.retireHalf.pipeline.status.isTerminal = false :=
      Bool.eq_false_iff.mpr fun ht =>
        Bool.eq_false_iff.mp hrun ((onward_issueHalf c.countCycle.retireHalf).terminal ht)
    exact (hc.retireHalf hm hhalf).issueHalf
  · rw [tick_of_frozen hs hm]
    exact hc.frozenCycle

/-- An empty pipeline. -/
theorem coherent_core (m : Machine) :
    m.core.Coherent m.icache.geometry m.dcache.geometry where
  icacheGeometry := rfl
  dcacheGeometry := rfl
  executeClean := rfl
  decodeClean := rfl
  waiting := nofun
  steered := nofun
  resting := nofun
  missing := nofun
  memStall := Nat.zero_le _
  slot := .inr rfl
  vacant := fun _ => rfl
  fetchStall := Nat.zero_le _

theorem Coherent.run (h : c.Coherent icache dcache) (n : Nat)
    (hrun : (runTicks n c).pipeline.status.isTerminal = false) :
    (runTicks n c).Coherent icache dcache := by
  induction n with
  | zero => exact h
  | succ n ih =>
    rw [runTicks_one_more] at hrun ⊢
    exact (ih (running_of_tick hrun)).tick hrun

theorem Coherent.underway (h : c.Coherent icache dcache) : c.Underway where
  executeClean := h.executeClean
  slot := h.slot
  waiting := h.waiting
  steered := h.steered
  resting := by
    have live : ∀ i : Instruction, i.ends = true → i.isLive = true :=
      fun i hi => ((Bool.and_eq_true _ _).mp hi).1
    exact fun hh => (h.resting hh).imp (live _) (.imp (live _) (live _))

/-- The way of the foremost instruction to the memory slot is no longer than a miss of the
instruction cache and the pipeline. -/
theorem Coherent.rank_le (h : c.Coherent icache dcache) : c.rank ≤ icache.missLatency + 6 := by
  unfold rank
  rw [h.icacheGeometry]
  have hstall := h.fetchStall
  dsimp only
  (repeat' split) <;> first | omega | skip
  next hf =>
    have hi := h.slot.resolve_left hf
    have := h.vacant hi
    omega

/-- What has passed the memory stage retires when its miss is over. -/
theorem retires_of_memory {c : Core} (hs : c.pipeline.status = .success)
    (hm : c.pipeline.slots.memory.isLive = true) :
    retired (c.pipeline.control.memStall + 1) c ≠ [] := by
  induction hk : c.pipeline.control.memStall generalizing c with
  | zero =>
    rw [retired, retiring_of_moving hs hk]
    simp [hm]
  | succ k ih =>
    have e := tick_of_frozen hs (by rw [hk]; exact Nat.succ_pos k)
    have hk' : c.tick.pipeline.control.memStall = k := by
      rw [e]
      exact congrArg (· - 1) hk
    have := ih (c := c.tick) (by rw [e]; exact hs) (by rw [e]; exact hm) hk'
    rw [retired]
    exact fun hnil => this (List.append_eq_nil_iff.mp hnil).2

/-- Something retires, or the run ends, within the way of the foremost instruction to the memory
slot and a miss of the data cache. -/
theorem Coherent.retires_within {c : Core} (h : c.Coherent icache dcache)
    (hrun : c.pipeline.status.isTerminal = false) :
    ∃ k ≤ c.rank + dcache.missLatency,
      retired k c ≠ [] ∨ (runTicks k c).pipeline.status.isTerminal = true := by
  have hs := RunStatus.eq_success hrun
  cases hm : c.pipeline.slots.memory.isLive with
  | true =>
    refine ⟨c.pipeline.control.memStall + 1, ?_, .inl (retires_of_memory hs hm)⟩
    have := h.memStall
    rw [rank_of_memory hm]
    omega
  | false =>
    have hstall : c.pipeline.control.memStall = 0 := by
      refine Nat.eq_zero_of_not_pos fun hpos => ?_
      rw [h.missing hpos] at hm
      cases hm
    have hrank : c.tick.rank < c.rank := by
      rw [tick_of_moving hs hstall]
      exact Underway.rank_movingCycle (c := c.countCycle) { h.underway with } hm
    cases ht : c.tick.pipeline.status.isTerminal with
    | true => exact ⟨1, by omega, .inr (by rw [runTicks_succ]; exact ht)⟩
    | false =>
      obtain ⟨k, hk, hend⟩ := (h.tick ht).retires_within ht
      refine ⟨k + 1, by omega, ?_⟩
      rw [retired, runTicks_succ]
      exact hend.imp (fun hne hnil => hne (List.append_eq_nil_iff.mp hnil).2) id
termination_by c.rank

end Run

end Core

/-- The pipeline never deadlocks, whatever the program does and whatever machine it runs on: as long
as the run has not ended, another instruction retires, or the run ends, within the miss latencies of
both caches and eight cycles. -/
theorem never_deadlocks (m : Machine) (n : Nat)
    (hrun : (Core.runTicks n m.core).pipeline.status.isTerminal = false) :
    ∃ k ≤ m.icache.geometry.missLatency + m.dcache.geometry.missLatency + 8,
      Core.retired k (Core.runTicks n m.core) ≠ [] ∨
        (Core.runTicks (n + k) m.core).pipeline.status.isTerminal = true := by
  have hc := (Core.coherent_core m).run n hrun
  obtain ⟨k, hk, hend⟩ := hc.retires_within hrun
  have := hc.rank_le
  refine ⟨k, by omega, ?_⟩
  rw [Core.runTicks_add]
  exact hend

/-- The storing machine, 8 cycles into its run. -/
theorem never_deadlocks_storing :
    (Core.runTicks 8 Machine.storing.core).pipeline.status.isTerminal = false ∧
      ∃ k ≤ Machine.storing.icache.geometry.missLatency
          + Machine.storing.dcache.geometry.missLatency + 8,
        Core.retired k (Core.runTicks 8 Machine.storing.core) ≠ [] ∨
          (Core.runTicks (8 + k) Machine.storing.core).pipeline.status.isTerminal = true := by
  have hrun : (Core.runTicks 8 Machine.storing.core).pipeline.status.isTerminal = false := by
    decide +kernel
  exact ⟨hrun, never_deadlocks Machine.storing 8 hrun⟩

end FiveStage
