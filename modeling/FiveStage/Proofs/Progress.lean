import FiveStage.Proofs.Simulation

/-! # Progress

A pipeline that has not ended retires another instruction after finitely many cycles. Until it does,
every cycle brings the foremost instruction closer to the memory slot (`Core.rank`), or uses up a
cycle of a data-cache miss. -/

namespace FiveStage

open Instruction

/-- How many moving cycles are left at most until the foremost instruction is in the memory slot. -/
def Core.rank (c : Core) : Nat :=
  let slots := c.pipeline.slots
  if slots.memory.isLive then 1
  else if slots.execute.isLive then 2
  else if slots.decode.isLive then if c.pipeline.control.controlPending then 4 else 3
  else if slots.fetch.isFetched then 5 + c.pipeline.control.fetchStall
  else 6 + c.machine.icache.geometry.missLatency + c.pipeline.control.fetchStall

section Rank

variable {c : Core}

theorem rank_of_memory (h : c.pipeline.slots.memory.isLive = true) : c.rank = 1 := if_pos h

theorem rank_of_execute (hm : c.pipeline.slots.memory.isLive = false)
    (h : c.pipeline.slots.execute.isLive = true) : c.rank = 2 := by
  simp [Core.rank, hm, h]

theorem rank_of_decode (hm : c.pipeline.slots.memory.isLive = false)
    (he : c.pipeline.slots.execute.isLive = false)
    (h : c.pipeline.slots.decode.isLive = true) :
    c.rank = if c.pipeline.control.controlPending then 4 else 3 := by
  simp [Core.rank, hm, he, h]

theorem rank_of_fetch (hm : c.pipeline.slots.memory.isLive = false)
    (he : c.pipeline.slots.execute.isLive = false)
    (hd : c.pipeline.slots.decode.isLive = false) :
    c.rank = if c.pipeline.slots.fetch.isFetched then 5 + c.pipeline.control.fetchStall
      else 6 + c.machine.icache.geometry.missLatency + c.pipeline.control.fetchStall := by
  simp [Core.rank, hm, he, hd]

/-- A live instruction in the first three slots is close to memory. -/
theorem rank_le_of_live (h : c.pipeline.slots.memory.isLive = true ∨
    c.pipeline.slots.execute.isLive = true ∨ c.pipeline.slots.decode.isLive = true) :
    c.rank ≤ 4 := by
  unfold Core.rank
  simp only
  (repeat' split) <;> simp_all

end Rank

/-- Without an executed instruction there is no access. -/
theorem accessPhase_of_no_execute {c : Core} (he : c.pipeline.slots.execute.isLive = false) :
    c.accessPhase =
      { c with
        pipeline.slots := { c.pipeline.slots with memory := c.pipeline.slots.execute } } := by
  have hi : c.pipeline.slots.execute.forwardStoreData c.pipeline.slots.writeback =
      c.pipeline.slots.execute := forwardStoreData_of_not_live he _
  have hhit : c.machine.accessHits c.pipeline.slots.execute = true := by
    simp [Machine.accessHits, Machine.accessesMemory, he]
  unfold Core.accessPhase
  simp only [hi, hhit, memoryStage_of_not_live _ he, if_true]

/-- The first half of a cycle when nothing is in the execute slot. -/
theorem retireHalf_of_no_execute {c : Core} (he : c.pipeline.slots.execute.isLive = false)
    (hf : c.pipeline.slots.execute.memFault = false) :
    c.retireHalf.pipeline.slots =
        { c.pipeline.slots with
          memory := c.pipeline.slots.execute, writeback := c.pipeline.slots.memory } ∧
      c.retireHalf.pipeline.control = c.pipeline.control ∧
      c.retireHalf.machine.icache = c.machine.icache := by
  have hacc := accessPhase_of_no_execute (c := c.writebackPhase) he
  have e : c.retireHalf = c.writebackPhase.accessPhase := by
    rw [Core.retireHalf_eq, if_neg]
    rw [hacc]
    change ¬ c.pipeline.slots.execute.memFault = true
    rw [hf]
    simp
  rw [e, hacc]
  refine ⟨rfl, rfl, ?_⟩
  change (c.machine.writebackStage c.pipeline.slots.memory).icache = _
  unfold Machine.writebackStage
  split <;> rfl

section Issue

variable {c : Core}

theorem isLive_decode_resolvePhase (c : Core) :
    c.resolvePhase.pipeline.slots.decode.isLive = c.pipeline.slots.decode.isLive := by
  unfold Core.resolvePhase
  simp only
  split
  · exact (isLive_forward _ _ _).trans (isLive_forward _ _ _)
  · rfl

/-- A branch or jump that waits is resolved when nothing is in front of it. -/
theorem rank_issueHalf_of_pending (hm : c.pipeline.slots.memory.isLive = false)
    (hd : c.pipeline.slots.decode.isLive = true)
    (hp : c.pipeline.control.controlPending = true) : c.issueHalf.rank ≤ 3 := by
  have hk : c.hold? = some .control := if_pos hp
  have e : c.issueHalf = (c.holdPhase .control).resolvePhase.fetchWait := by
    unfold Core.issueHalf; rw [hk]
  have hready : controlReady (c.holdPhase .control).pipeline.slots.decode
      (c.holdPhase .control).pipeline.slots.execute
      (c.holdPhase .control).pipeline.slots.memory = true := by
    have h1 : (c.holdPhase .control).pipeline.slots.execute.dest = none := rfl
    have h2 : (c.holdPhase .control).pipeline.slots.memory.dest = none := dest_of_not_live hm
    simp [controlReady, blocksControl, h1, h2]
  have hres : (c.holdPhase .control).resolvePhase.pipeline.control.controlPending = false := by
    unfold Core.resolvePhase
    simp only
    rw [if_pos]
    rw [hready, Bool.and_true]
    exact hp
  have hslots : (c.holdPhase .control).resolvePhase.pipeline.slots.memory =
        c.pipeline.slots.memory ∧
      (c.holdPhase .control).resolvePhase.pipeline.slots.execute = .bubble := by
    obtain ⟨_, _, _, e'⟩ := resolvePhase_shape (c.holdPhase .control)
    rw [e']
    exact ⟨rfl, rfl⟩
  have hlive : (c.holdPhase .control).resolvePhase.pipeline.slots.decode.isLive = true :=
    (isLive_decode_resolvePhase _).trans ((isLive_forward _ _ _).trans hd)
  rw [e, rank_of_decode]
  · change (if (c.holdPhase .control).resolvePhase.pipeline.control.controlPending = true
      then 4 else 3) ≤ 3
    rw [hres]
    exact Nat.le_refl 3
  · change (c.holdPhase .control).resolvePhase.pipeline.slots.memory.isLive = false
    rw [hslots.1, hm]
  · change (c.holdPhase .control).resolvePhase.pipeline.slots.execute.isLive = false
    rw [hslots.2]
    rfl
  · exact hlive

theorem isLive_execute_executePhase (c : Core) :
    c.executePhase.pipeline.slots.execute.isLive = c.pipeline.slots.decode.isLive :=
  (isLive_executed _).trans ((isLive_forward _ _ _).trans (isLive_forward _ _ _))

/-- The decoded instruction executes when nothing is in front of it. -/
theorem rank_issueHalf_of_decode (hm : c.pipeline.slots.memory.isLive = false)
    (hd : c.pipeline.slots.decode.isLive = true)
    (hp : c.pipeline.control.controlPending = false) : c.issueHalf.rank = 2 := by
  have hk : c.hold? = none := by
    have : loadUseHazard c.pipeline.slots.memory c.pipeline.slots.decode = false := by
      simp [loadUseHazard, dest_of_not_live hm]
    simp [Core.hold?, hp, this]
  refine rank_of_execute ?_ ?_
  · rw [(issueHalf_slots c).2, hm]
  · rw [issueHalf_execute, hk]
    exact (isLive_execute_executePhase c).trans hd

/-- Nothing is in flight but what fetch holds. -/
structure Drained (c : Core) : Prop where
  memory : c.pipeline.slots.memory.isLive = false
  decode : c.pipeline.slots.decode.isLive = false
  pending : c.pipeline.control.controlPending = false
  redirect : c.pipeline.control.redirect = none

namespace Drained

theorem hold_eq (h : Drained c) : c.hold? = none := by
  have : loadUseHazard c.pipeline.slots.memory c.pipeline.slots.decode = false := by
    simp [loadUseHazard, h.decode]
  simp [Core.hold?, h.pending, this]

theorem execute (h : Drained c) : c.executePhase.pipeline.slots.execute.isLive = false :=
  (isLive_execute_executePhase c).trans h.decode

theorem issueHalf_of_ready (h : Drained c) (hs : c.pipeline.control.fetchStall = 0) :
    c.issueHalf = c.executePhase.decodePhase.resolvePhase.fetchPhase := by
  have hready : c.executePhase.fetchReady = true := by
    have : c.executePhase.pipeline.control.fetchStall = 0 := hs
    simp [Core.fetchReady, this]
  unfold Core.issueHalf
  rw [h.hold_eq]
  simp only [hready, if_true]

theorem issueHalf_of_stall (h : Drained c) (hs : 0 < c.pipeline.control.fetchStall) :
    c.issueHalf = c.executePhase.awaitFetch.fetchWait := by
  have h1 : c.executePhase.pipeline.control.redirect = none := h.redirect
  have h2 : 0 < c.executePhase.pipeline.control.fetchStall := hs
  have hready : c.executePhase.fetchReady = false := by
    simp [Core.fetchReady, h1, Nat.pos_iff_ne_zero.mp h2]
  have hdec : c.executePhase.decodePhase = c.executePhase.awaitFetch := by
    unfold Core.decodePhase
    rw [h1]
    simp only [h2, if_true]
  have hres : c.executePhase.awaitFetch.resolvePhase = c.executePhase.awaitFetch :=
    if_neg (by
      have : c.executePhase.awaitFetch.pipeline.control.controlPending = false := h.pending
      simp [this])
  unfold Core.issueHalf
  rw [h.hold_eq]
  simp only [hready, Bool.false_eq_true, if_false]
  rw [hdec, hres]

/-- The fetched word is decoded. -/
theorem rank_decoding (h : Drained c) (hs : c.pipeline.control.fetchStall = 0)
    (hf : c.pipeline.slots.fetch.isFetched = true) : c.issueHalf.rank ≤ 4 := by
  have hlive : c.executePhase.decodePhase.pipeline.slots.decode.isLive = true := by
    rw [decodePhase_of_fetched (c := c.executePhase) h.redirect hs hf]
    exact (decodedWord_spec (c := c.executePhase) hf).live
  rw [h.issueHalf_of_ready hs]
  refine rank_le_of_live ?_
  obtain ⟨_, _, _, _, e⟩ := fetchPhase_shape c.executePhase.decodePhase.resolvePhase
  rw [e]
  exact .inr (.inr ((isLive_decode_resolvePhase _).trans hlive))

/-- The first word is fetched. -/
theorem rank_starting (h : Drained c) (hs : c.pipeline.control.fetchStall = 0)
    (hh : c.pipeline.control.fetchHalted = false) (hf : c.pipeline.slots.fetch = .idle) :
    c.issueHalf.rank ≤ 5 + c.machine.icache.geometry.missLatency := by
  have hdec : c.executePhase.decodePhase = c.executePhase.setDecode .idle :=
    decodePhase_of_idle h.redirect hs hf
  have hres : (c.executePhase.setDecode .idle).resolvePhase = c.executePhase.setDecode .idle :=
    if_neg (by
      have : (c.executePhase.setDecode .idle).pipeline.control.controlPending = false := h.pending
      simp [this])
  rw [h.issueHalf_of_ready hs, hdec, hres]
  have hn : ¬ (c.executePhase.setDecode .idle).pipeline.control.fetchHalted = true :=
    Bool.eq_false_iff.1 hh
  have hslot := (fetch_fetchPhase (c := c.executePhase.setDecode .idle) hh).1
  have hstall : (c.executePhase.setDecode .idle).fetchPhase.pipeline.control.fetchStall ≤
      c.machine.icache.geometry.missLatency := by
    unfold Core.fetchPhase
    rw [if_neg hn]
    change (if _ then c.pipeline.control.fetchStall
      else (c.machine.icache.access c.machine.pc).geometry.missLatency) ≤ _
    split
    · rw [hs]; exact Nat.zero_le _
    · unfold Cache.access
      split <;> exact Nat.le_refl _
  obtain ⟨_, _, _, _, e⟩ := fetchPhase_shape (c.executePhase.setDecode .idle)
  rw [rank_of_fetch, if_pos hslot]
  · omega
  · rw [e]; exact h.memory
  · rw [e]; exact h.execute
  · rw [e]; rfl

/-- A cycle of a miss passes. -/
theorem rank_stalled (h : Drained c) (hs : 0 < c.pipeline.control.fetchStall) :
    c.issueHalf.rank <
      if c.pipeline.slots.fetch.isFetched then 5 + c.pipeline.control.fetchStall
      else 6 + c.machine.icache.geometry.missLatency + c.pipeline.control.fetchStall := by
  rw [h.issueHalf_of_stall hs,
    rank_of_fetch (c := c.executePhase.awaitFetch.fetchWait) h.memory h.execute rfl]
  change (if c.pipeline.slots.fetch.isFetched = true then
      5 + (c.pipeline.control.fetchStall - 1)
    else 6 + c.machine.icache.geometry.missLatency + (c.pipeline.control.fetchStall - 1)) < _
  split <;> omega

/-- With nothing in flight the next word is fetched or decoded, or a cycle of a miss passes. -/
theorem rank_issueHalf (h : Drained c) (hh : c.pipeline.control.fetchHalted = false)
    (hf : c.pipeline.slots.fetch.isFetched = true ∨ c.pipeline.slots.fetch = .idle) :
    c.issueHalf.rank <
      if c.pipeline.slots.fetch.isFetched then 5 + c.pipeline.control.fetchStall
      else 6 + c.machine.icache.geometry.missLatency + c.pipeline.control.fetchStall := by
  rcases Nat.eq_zero_or_pos c.pipeline.control.fetchStall with hs | hs
  · rcases hf with hf | hf
    · have := h.rank_decoding hs hf
      rw [if_pos hf]
      omega
    · have := h.rank_starting hs hh hf
      rw [hf, if_neg (by decide)]
      omega
  · exact h.rank_stalled hs

end Drained

end Issue

/-- Nothing that waits in decode or steers fetch is without its instruction there, and behind the
halt word fetch rests only while something is in flight. -/
structure Core.Underway (c : Core) : Prop where
  executeClean : c.pipeline.slots.execute.memFault = false
  slot : c.pipeline.slots.fetch.isFetched = true ∨ c.pipeline.slots.fetch = .idle
  waiting : c.pipeline.control.controlPending = true → c.pipeline.slots.decode.isLive = true
  steered : c.pipeline.control.redirect.isSome = true → c.pipeline.slots.decode.isLive = true
  resting : c.pipeline.control.fetchHalted = true → c.pipeline.slots.memory.isLive = true ∨
    c.pipeline.slots.execute.isLive = true ∨ c.pipeline.slots.decode.isLive = true

namespace Core.Underway

variable {c : Core}

/-- With nothing in flight fetch is on its way to the next word. -/
theorem rank_fetching (h : c.Underway) (hm : c.pipeline.slots.memory.isLive = false)
    (he : c.pipeline.slots.execute.isLive = false) (hd : c.pipeline.slots.decode.isLive = false) :
    c.movingCycle.rank < c.rank := by
  obtain ⟨hslots, hcontrol, hicache⟩ := retireHalf_of_no_execute he h.executeClean
  have hp : c.pipeline.control.controlPending = false :=
    Bool.eq_false_iff.mpr fun hp => absurd ((h.waiting hp).symm.trans hd) (by decide)
  have hr : c.pipeline.control.redirect = none := by
    cases hr : c.pipeline.control.redirect with
    | none => rfl
    | some _ => exact absurd ((h.steered (by rw [hr]; rfl)).symm.trans hd) (by decide)
  have hh : c.pipeline.control.fetchHalted = false :=
    Bool.eq_false_iff.mpr fun hh => by simpa [hm, he, hd] using h.resting hh
  have hdrained : Drained c.retireHalf :=
    ⟨by rw [hslots]; exact he, by rw [hslots]; exact hd, by rw [hcontrol]; exact hp,
      by rw [hcontrol]; exact hr⟩
  have := hdrained.rank_issueHalf (by rw [hcontrol]; exact hh) (by rw [hslots]; exact h.slot)
  rw [hslots, hcontrol, hicache] at this
  rw [rank_of_fetch hm he hd]
  exact this

/-- A moving cycle in which nothing retires brings the foremost instruction closer to memory. -/
theorem rank_movingCycle (h : c.Underway) (hm : c.pipeline.slots.memory.isLive = false) :
    c.movingCycle.rank < c.rank := by
  cases he : c.pipeline.slots.execute.isLive with
  | true =>
    rw [rank_of_execute hm he, rank_of_memory ((movingCycle_slots c).2.1.trans he)]
    exact Nat.lt_succ_self 1
  | false =>
    cases hd : c.pipeline.slots.decode.isLive with
    | false => exact h.rank_fetching hm he hd
    | true =>
      obtain ⟨hslots, hcontrol, -⟩ := retireHalf_of_no_execute he h.executeClean
      have he' : c.retireHalf.pipeline.slots.memory.isLive = false := by rw [hslots]; exact he
      have hd' : c.retireHalf.pipeline.slots.decode.isLive = true := by rw [hslots]; exact hd
      rw [show c.movingCycle = c.retireHalf.issueHalf from rfl, rank_of_decode hm he hd]
      cases hp : c.pipeline.control.controlPending with
      | true =>
        have := rank_issueHalf_of_pending he' hd' (by rw [hcontrol]; exact hp)
        exact Nat.lt_succ_of_le this
      | false =>
        have := rank_issueHalf_of_decode he' hd' (by rw [hcontrol]; exact hp)
        exact Nat.lt_succ_of_le (Nat.le_of_eq this)

end Core.Underway

namespace Consistent

variable {s : Sequential} {c : Core}

/-- A consistent pipeline that has not ended is underway. -/
theorem underway (h : Consistent s c) (hs : c.pipeline.status = .success) : c.Underway where
  executeClean := h.executeClean
  slot := h.frontEnd.slot
  waiting := by
    intro hp
    cases h.frontEnd with
    | waiting _ _ _ _ _ _ h7 => exact h7
    | starting _ h2 => exact absurd (hp.symm.trans h2) (by decide)
    | following _ h2 => exact absurd (hp.symm.trans h2) (by decide)
    | steering _ h2 => exact absurd (hp.symm.trans h2) (by decide)
    | resting _ h2 => exact absurd (hp.symm.trans h2) (by decide)
  steered := h.steered
  resting := by
    intro hh
    cases h.frontEnd with
    | starting _ _ _ h4 => exact absurd (hh.symm.trans h4) (by decide)
    | following _ _ _ h4 => exact absurd (hh.symm.trans h4) (by decide)
    | waiting _ _ _ _ _ _ h7 => exact .inr (.inr h7)
    | steering _ _ h3 => exact .inr (.inr (h.steered (by rw [h3]; rfl)))
    | resting _ _ _ _ h5 =>
      refine Decidable.byContradiction fun hnone => ?_
      simp only [not_or, Bool.not_eq_true] at hnone
      obtain ⟨hm, he, hd⟩ := hnone
      have point : c.decodePoint s = s := by
        unfold Core.decodePoint Core.executePoint Core.memoryPoint
        rw [Sequential.pass_of_not_live _ hm, Sequential.foresee_of_not_live _ he,
          Sequential.foresee_of_not_live _ hd]
      rw [point, h.running hs] at h5
      cases h5

end Consistent

theorem rank_frozenCycle (c : Core) : c.frozenCycle.rank ≤ c.rank := by
  have e : c.frozenCycle.rank =
      if c.pipeline.slots.memory.isLive then 1
      else if c.pipeline.slots.execute.isLive then 2
      else if c.pipeline.slots.decode.isLive then if c.pipeline.control.controlPending then 4 else 3
      else if c.pipeline.slots.fetch.isFetched then 5 + (c.pipeline.control.fetchStall - 1)
      else 6 + c.machine.icache.geometry.missLatency + (c.pipeline.control.fetchStall - 1) := rfl
  rw [e]
  unfold Core.rank
  simp only
  (repeat' split) <;> omega

/-- A run that has not ended retires another instruction, or is ended by a second exception. -/
theorem Consistent.progress {s : Sequential} {c : Core} (h : Consistent s c)
    (hs : c.pipeline.status = .success) :
    ∃ n, Core.retired n c ≠ [] ∨ (Core.runTicks n c).EndedTwice := by
  have later : (∃ n, Core.retired n c.tick ≠ [] ∨ (Core.runTicks n c.tick).EndedTwice) →
      ∃ n, Core.retired n c ≠ [] ∨ (Core.runTicks n c).EndedTwice := by
    rintro ⟨n, hn⟩
    refine ⟨n + 1, ?_⟩
    rw [Core.retired, Core.runTicks_succ]
    exact hn.imp (fun hne ha => hne (List.append_eq_nil_iff.mp ha).2) id
  rcases Nat.eq_zero_or_pos c.pipeline.control.memStall with hk | hk
  · have e := Core.tick_of_moving hs hk
    rcases h.tick_moving hs hk with hc | ⟨-, hend⟩
    · cases hm : c.pipeline.slots.memory.isLive with
      | true =>
        refine ⟨1, .inl ?_⟩
        simp [Core.retired, Core.retiring, hs, RunStatus.isTerminal, (tick_slots hs hk).1, hm]
      | false =>
        have hpass : c.memoryPoint s = s := Sequential.pass_of_not_live _ hm
        rw [hpass] at hc
        have hs' : c.tick.pipeline.status = .success := by rw [hc.status, ← h.status, hs]
        have hrank : c.tick.rank < c.rank := by
          rw [e]; exact (h.countCycle.underway hs).rank_movingCycle hm
        exact later (hc.progress hs')
    · refine ⟨1, .inr ?_⟩
      rw [Core.runTicks_succ]
      exact hend
  · have e := Core.tick_of_frozen hs hk
    have hc := h.tick_frozen hs hk
    have hs' : c.tick.pipeline.status = .success := by rw [hc.status, ← h.status, hs]
    have hstall : c.tick.pipeline.control.memStall < c.pipeline.control.memStall := by
      rw [e]; exact Nat.sub_lt hk Nat.zero_lt_one
    have hrank : c.tick.rank ≤ c.rank := by rw [e]; exact rank_frozenCycle c.countCycle
    exact later (hc.progress hs')
-- within a rank, by the cycles that are left of a data-cache miss
termination_by (c.rank, c.pipeline.control.memStall)
decreasing_by
  · exact Prod.Lex.left _ _ hrank
  · rcases Nat.lt_or_eq_of_le hrank with hlt | heq
    · exact Prod.Lex.left _ _ hlt
    · rw [heq]
      exact Prod.Lex.right _ hstall

/-- A run ends or retires as many instructions as one likes. -/
theorem Consistent.retires_or_ends {s₀ : Sequential} {c₀ : Core} (h : Consistent s₀ c₀) (k : Nat) :
    ∃ n, (Core.runTicks n c₀).pipeline.status.isTerminal = true ∨
      k ≤ (Core.retired n c₀).length := by
  induction k with
  | zero => exact ⟨0, .inr (Nat.zero_le _)⟩
  | succ k ih =>
    obtain ⟨n, hn⟩ := ih
    cases ht : (Core.runTicks n c₀).pipeline.status.isTerminal with
    | true => exact ⟨n, .inl ht⟩
    | false =>
      have hk := hn.resolve_left (by simp [ht])
      rcases h.simulation n with ⟨s, hr⟩ | ⟨_, _, _, _, _, hend⟩
      · obtain ⟨j, hj⟩ := hr.consistent.progress (RunStatus.eq_success ht)
        refine ⟨n + j, ?_⟩
        rw [Core.runTicks_add, Core.retired_add, List.length_append]
        rcases hj with hne | hend
        · have := List.length_pos_iff.mpr hne
          exact .inr (by omega)
        · exact .inl (by rw [hend.status]; rfl)
      · rw [hend.status] at ht
        cases ht

end FiveStage
