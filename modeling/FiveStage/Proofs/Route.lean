import FiveStage.Proofs.Cache
import FiveStage.Proofs.Undisturbed

/-! # The route of fetch

In a run without exceptions fetch goes the way of the program and one word beyond: behind each
instruction it goes to the next word, and from there to the successor of the instruction if that is
another one; behind the halt word it rests. `Route` says how far it has come, in terms of the
instructions that have been decoded, and every cycle goes on along it (`OnRoute.tick`). -/

namespace FiveStage

open Instruction

namespace Instruction

/-- The addresses fetch goes to behind an instruction: that of the next word, and that of its
successor if it is another. -/
def followed (i : Instruction) : List Word := i.fallThrough :: i.turn?.toList

/-- The addresses fetch goes to behind an instruction that may be the halt word. -/
def behind (i : Instruction) : List Word := if i.flags.halt then [] else i.followed

theorem flatMap_behind {is : List Instruction} (h : ∀ i ∈ is, i.flags.halt = false) :
    is.flatMap behind = is.flatMap followed := by
  induction is with
  | nil => rfl
  | cons i is ih =>
    rw [List.flatMap_cons, List.flatMap_cons, ih fun j hj => h j (List.mem_cons_of_mem i hj),
      behind, h i List.mem_cons_self, if_neg (by simp)]

/-- The instruction is not followed by the next word. -/
def turns (i : Instruction) : Bool := i.turn?.isSome

theorem turns_iff (i : Instruction) : i.turns = true ↔ i.nextPc ≠ i.fallThrough := by
  unfold turns turn?
  split <;> simp [*]

end Instruction

/-- The addresses that have been passed, with the one fetch is about to turn to, are those behind
the instructions that have been decoded; and for each of their turns a word has been thrown away, or
is about to be. -/
structure Route (start : Word) (passed : List Word) (decoded : List Instruction)
    (redirect : Option Word) (squashed : Nat) : Prop where
  passes : passed ++ redirect.toList = start :: decoded.flatMap behind
  turns : squashed + redirect.isSome.toNat = decoded.countP Instruction.turns

namespace Route

variable {start target : Word} {passed : List Word} {is js : List Instruction} {i j : Instruction}
  {redirect : Option Word} {squashed : Nat}

/-- Outlines tell the route. -/
theorem congr (h : Route start passed is redirect squashed)
    (ho : js.map outline = is.map outline) : Route start passed js redirect squashed := by
  have hb : ∀ ks : List Instruction, ks.flatMap behind = (ks.map outline).flatMap behind := by
    intro ks
    rw [List.flatMap_map]
    rfl
  have ht : ∀ ks : List Instruction,
      ks.countP Instruction.turns = (ks.map outline).countP Instruction.turns := by
    intro ks
    rw [List.countP_map]
    rfl
  exact ⟨by rw [hb, ho, ← hb, h.passes], by rw [ht, ho, ← ht, h.turns]⟩

/-- Fetch goes on to the word behind the instruction that is decoded. -/
theorem take (h : Route start passed is none squashed) (hi : i.flags.halt = false) :
    Route start (passed ++ [i.fallThrough]) (is ++ [i]) i.turn? squashed where
  passes := by
    have hp := h.passes
    rw [Option.toList_none, List.append_nil] at hp
    rw [hp, List.flatMap_append, List.flatMap_singleton, behind, hi, if_neg (by simp), followed]
    simp
  turns := by
    have ht := h.turns
    rw [Option.isSome_none, Bool.toNat_false, Nat.add_zero] at ht
    rw [ht, List.countP_append, List.countP_singleton, Instruction.turns]
    cases i.turn? <;> rfl

/-- Behind the halt word fetch goes nowhere. -/
theorem take_halt (h : Route start passed is none squashed) (hi : i.flags.halt = true)
    (hnext : i.turn? = none) : Route start passed (is ++ [i]) none squashed where
  passes := by
    rw [h.passes, List.flatMap_append, List.flatMap_singleton, behind, hi, if_pos rfl,
      List.append_nil]
  turns := by
    rw [h.turns, List.countP_append, List.countP_singleton, Instruction.turns, hnext]
    rfl

/-- The last instruction gets its successor when it is resolved. -/
theorem resolve (h : Route start passed (is ++ [i]) none squashed) (hi : i.flags.halt = false)
    (hnext : i.turn? = none) (hj : j.flags.halt = false) (hpc : j.fallThrough = i.fallThrough) :
    Route start passed (is ++ [j]) j.turn? squashed := by
  obtain ⟨hp, ht⟩ := h
  rw [List.flatMap_append, List.flatMap_singleton, behind, hi, if_neg (by simp), followed,
    hnext] at hp
  rw [List.countP_append, List.countP_singleton, Instruction.turns, hnext] at ht
  constructor
  · rw [List.flatMap_append, List.flatMap_singleton, behind, hj, if_neg (by simp), followed, hpc]
    simp_all
  · rw [List.countP_append, List.countP_singleton, Instruction.turns]
    cases hturn : j.turn? <;> simp_all

/-- Fetch turns, and the word it has brought in is thrown away. -/
theorem turn (h : Route start passed is (some target) squashed) :
    Route start (passed ++ [target]) is none (squashed + 1) :=
  ⟨by simpa using h.passes, h.turns⟩

end Route

namespace Core

/-- The address presented to the instruction cache in the next cycle, if any: that of the word fetch
holds then. -/
def fetches (c : Core) : List Word :=
  c.machine.icache.presented c.tick.machine.icache c.tick.pipeline.slots.fetch.pc

/-- What is observed in the next `n` cycles. -/
def stream (observe : Core → List Word) : Nat → Core → List Word
  | 0, _ => []
  | n + 1, c => observe c ++ stream observe n c.tick

theorem stream_one_more (observe : Core → List Word) (n : Nat) (c : Core) :
    stream observe (n + 1) c = stream observe n c ++ observe (runTicks n c) := by
  induction n generalizing c with
  | zero => exact List.append_nil _
  | succ n ih => rw [stream, ih, stream, List.append_assoc, runTicks_succ]

/-- Whether fetch has set out. -/
def begun (c : Core) : Bool := c.pipeline.slots.fetch.isFetched || c.pipeline.control.fetchHalted

/-- The address of the first fetch, as long as it is still to come. -/
def ahead (c : Core) : List Word := if c.begun then [] else [c.machine.pc]

/-- Where fetch goes if it moves on. -/
def aim (c : Core) : List Word := if c.pipeline.control.fetchHalted then [] else [c.machine.pc]

/-- Fetch has passed these addresses on the route of what has retired and what is in flight. -/
def OnRoute (start : Word) (passed : List Word) (retired : List Instruction) (c : Core) : Prop :=
  Route start passed (retired ++ c.inFlight) c.pipeline.control.redirect c.machine.counters.squashed

/-- A cycle from one core to another presents these addresses to the instruction cache. -/
structure Fetches (c d : Core) (addrs : List Word) : Prop where
  presented : c.machine.icache.presented d.machine.icache d.pipeline.slots.fetch.pc = addrs
  icache : d.machine.icache = c.machine.icache.feed addrs

section Phases

variable {c d : Core} {start : Word} {passed : List Word} {retired : List Instruction}

/-- Resolving a branch or jump settles where the route goes on. -/
theorem OnRoute.resolvePhase (h : c.OnRoute start passed retired) (hs : c.Steered) :
    c.resolvePhase.OnRoute start passed retired := by
  rcases c.resolvePhase_cases with e | ⟨hp, i, ho, e⟩
  · rw [e]
    exact h
  obtain ⟨hr, -, hl, hhalt, hnext⟩ := hs.waiting hp
  have hlive : i.isLive = true := (congrArg (fun o => o.isLive) ho).trans hl
  have hturn : (if i.nextPc ≠ i.fallThrough then some i.nextPc else none) = i.turn? := ite_not _ _ _
  unfold OnRoute at h ⊢
  rw [inFlight_eq, List.filter_cons_of_pos hl, ← List.append_assoc, hr] at h
  rw [e, inFlight_eq, List.filter_cons_of_pos hlive, ← List.append_assoc, hr, hturn]
  exact h.resolve hhalt (turn?_of_fallThrough hnext)
    ((congrArg (fun o => o.flags.halt) ho).trans hhalt)
    (congrArg (fun o => o.fallThrough) ho)

theorem OnRoute.fetchPhase (h : c.OnRoute start passed retired) :
    c.fetchPhase.OnRoute start passed retired := by
  obtain ⟨_, _, _, _, e⟩ := fetchPhase_shape c
  rw [e]
  exact h

/-- A moving fetch presents the address it aims at. -/
theorem fetches_fetchPhase (c : Core) : c.Fetches c.fetchPhase c.aim := by
  unfold aim
  cases hh : c.pipeline.control.fetchHalted with
  | true =>
    have e : c.fetchPhase =
        { c with pipeline.slots := { c.pipeline.slots with fetch := .idle } } := if_pos hh
    rw [e]
    exact ⟨Cache.presented_self _ _, rfl⟩
  | false =>
    have hi : c.fetchPhase.machine.icache = c.machine.icache.access c.machine.pc := by
      unfold Core.fetchPhase
      rw [if_neg (by simp [hh])]
      rfl
    refine ⟨?_, hi⟩
    rw [hi, (fetch_fetchPhase hh).2.1]
    exact Cache.presented_access _ _ _

/-- Fetch has set out once it has moved. -/
theorem begun_fetchPhase (c : Core) : c.fetchPhase.begun = true := by
  unfold begun
  cases hh : c.pipeline.control.fetchHalted with
  | true =>
    have e : c.fetchPhase.pipeline.control.fetchHalted = true := by
      obtain ⟨_, _, _, _, e⟩ := fetchPhase_shape c
      rw [e]
      exact hh
    rw [e, Bool.or_true]
  | false => rw [(fetch_fetchPhase hh).1, Bool.true_or]

theorem ahead_fetchPhase (c : Core) : c.fetchPhase.ahead = [] := if_pos c.begun_fetchPhase

theorem begun_congr (hf : d.pipeline.slots.fetch = c.pipeline.slots.fetch)
    (hh : d.pipeline.control.fetchHalted = c.pipeline.control.fetchHalted) : d.begun = c.begun := by
  unfold begun
  rw [hf, hh]

theorem ahead_congr (hf : d.pipeline.slots.fetch = c.pipeline.slots.fetch)
    (hh : d.pipeline.control.fetchHalted = c.pipeline.control.fetchHalted)
    (hpc : d.machine.pc = c.machine.pc) : d.ahead = c.ahead := by
  unfold ahead
  rw [begun_congr hf hh, hpc]

theorem Fetches.of_same (h : d.machine.icache = c.machine.icache) : c.Fetches d [] :=
  ⟨by rw [h]; exact Cache.presented_self _ _, h⟩

theorem ahead_of_fetched (h : c.pipeline.slots.fetch.isFetched = true) : c.ahead = [] :=
  if_pos (by rw [begun, h, Bool.true_or])

theorem aim_resolvePhase (c : Core) : c.resolvePhase.aim = c.aim := by
  obtain ⟨_, _, _, e⟩ := resolvePhase_shape c
  rw [e]
  rfl

/-- An address is about to replace that of fetch only when fetch holds a word. -/
theorem Orderly.fetched_of_redirect {target : Word} (h : c.Orderly)
    (hr : c.pipeline.control.redirect = some target) :
    c.pipeline.slots.fetch.isFetched = true ∧ c.pipeline.control.fetchHalted = false := by
  cases h.fetching with
  | starting _ _ h3 => exact absurd (h3.symm.trans hr) nofun
  | following h1 h2 => exact ⟨h1, h2⟩
  | resting _ h2 => exact absurd ((h.resting h2).1.symm.trans hr) nofun

end Phases

section Cycle

variable {c d r : Core} {start : Word} {passed : List Word} {retired : List Instruction}

/-- When the instructions have moved on, the decoded ones are those of the cycle before and what
decode has taken over. -/
theorem OnRoute.of_moved (taken : List Instruction) (hr : c.retireHalf = r)
    (hleft : c.leftOver = c.inFlight)
    (he : d.pipeline.slots.execute = r.executePhase.pipeline.slots.execute)
    (hm : d.pipeline.slots.memory = r.pipeline.slots.memory)
    (hd : [d.pipeline.slots.decode].filter (·.isLive) = taken)
    (h : Route start passed (retired ++ c.inFlight ++ taken) d.pipeline.control.redirect
      d.machine.counters.squashed) :
    d.OnRoute start passed (retired ++ [c.pipeline.slots.memory].filter (·.isLive)) := by
  subst hr
  refine h.congr ?_
  have ho := c.outline_moved he hm
  rw [hleft, hd] at ho
  rw [List.append_assoc, List.map_append, ho, ← List.map_append, List.append_assoc]

/-- While the decoded instruction waits it stays the last one. -/
theorem OnRoute.of_held {k : Hold} (hr : c.retireHalf = r) (hleft : c.leftOver = c.inFlight)
    (h : Route start passed (retired ++ c.inFlight) (r.holdPhase k).pipeline.control.redirect
      (r.holdPhase k).machine.counters.squashed) :
    (r.holdPhase k).OnRoute start passed
      (retired ++ [c.pipeline.slots.memory].filter (·.isLive)) := by
  subst hr
  refine h.congr ?_
  have ho := c.outline_holdPhase k
  rw [hleft] at ho
  rw [List.append_assoc, List.map_append, ho, ← List.map_append]

/-- What the first half of a cycle without an exception leaves alone. -/
theorem frontEnd_retireHalf (hf : c.faults = false) :
    c.retireHalf.machine.counters.squashed = c.machine.counters.squashed ∧
      c.retireHalf.pipeline.control.redirect = c.pipeline.control.redirect ∧
      c.retireHalf.ahead = c.ahead ∧ c.leftOver = c.inFlight := by
  have hx := not_flushes_of_not_faults hf
  have hq := c.counters_retireHalf
  obtain ⟨-, hpc, -, -⟩ := c.machine_retireHalf
  rw [retireHalf_of_not_faults hf] at hq hpc ⊢
  refine ⟨?_, rfl, ahead_congr rfl rfl hpc, c.leftOver_of_not_flushes hx⟩
  rw [hq, hx]
  rfl

/-- A cycle in which fetch moves on, once the route is known. -/
theorem OnRoute.fetched (hi : d.machine.icache = c.machine.icache)
    (h : d.OnRoute start (passed ++ d.aim) retired) :
    ∃ addrs, c.Fetches d.fetchPhase addrs ∧
      d.fetchPhase.OnRoute start (passed ++ addrs ++ d.fetchPhase.ahead) retired := by
  obtain ⟨h1, h2⟩ := d.fetches_fetchPhase
  rw [hi] at h1 h2
  refine ⟨d.aim, ⟨h1, h2⟩, ?_⟩
  rw [ahead_fetchPhase, List.append_nil]
  exact h.fetchPhase

/-- The decoded word settles where fetch goes. -/
theorem Orderly.route_takeLegal {is : List Instruction} {squashed : Nat} (hm : c.Orderly)
    (hi : c.pipeline.slots.fetch.isFetched = true) (h : Route start passed is none squashed) :
    Route start (passed ++ c.takeLegal.aim) (is ++ [c.decodedWord]) c.decodedWord.turn?
      squashed := by
  show Route start (passed ++ if c.decodedWord.flags.halt then [] else [c.machine.pc]) _ _ _
  cases hh : c.decodedWord.flags.halt with
  | true =>
    have hnext := turn?_of_fallThrough (nextPc_decodedWord hi (.inr hh))
    rw [if_pos rfl, List.append_nil, hnext]
    exact h.take_halt hh hnext
  | false =>
    have hpc : c.machine.pc = c.decodedWord.fallThrough := by
      rw [(hm.fetching.of_fetched hi).2, fallThrough, fallThrough, (decodedWord_spec hi).pc]
    rw [if_neg (by simp), hpc]
    exact h.take hh

/-- A cycle goes on along the route when the instructions decoded at its end are on it, with what
the cycle has presented to the instruction cache and what retires from memory. -/
def GoesOn (start : Word) (passed : List Word) (retired : List Instruction) (c d : Core) : Prop :=
  ∃ addrs, c.Fetches d addrs ∧
    d.OnRoute start (passed ++ addrs ++ d.ahead)
      (retired ++ [c.pipeline.slots.memory].filter (·.isLive))

section Ways

-- the first half of the cycle under a name of its own, lest it be unfolded

variable (hr : c.retireHalf = r) (hicache : r.machine.icache = c.machine.icache)
  (hleft : c.leftOver = c.inFlight)

include hr hicache hleft

theorem GoesOn.held (k : Hold) (hm : r.Orderly)
    (h : Route start (passed ++ r.ahead) (retired ++ c.inFlight) r.pipeline.control.redirect
      r.machine.counters.squashed) :
    GoesOn start passed retired c (r.holdPhase k).resolvePhase.fetchWait := by
  have hd : (r.holdPhase k).resolvePhase.fetchWait.ahead = r.ahead := by
    obtain ⟨_, _, _, er⟩ := resolvePhase_shape (r.holdPhase k)
    rw [er]
    cases k <;> exact ahead_congr rfl rfl rfl
  have hi : (r.holdPhase k).resolvePhase.fetchWait.machine.icache = c.machine.icache := by
    rw [← hicache]
    refine (congrArg Machine.icache (machine_resolvePhase _)).trans ?_
    cases k <;> rfl
  refine ⟨[], .of_same hi, ?_⟩
  rw [List.append_nil, hd]
  have hheld : (r.holdPhase k).OnRoute start (passed ++ r.ahead)
      (retired ++ [c.pipeline.slots.memory].filter (·.isLive)) := by
    refine .of_held hr hleft ?_
    cases k <;> exact h
  exact hheld.resolvePhase (hm.holdPhase k).toSteered

theorem GoesOn.awaiting
    (h : Route start (passed ++ r.ahead) (retired ++ c.inFlight) r.pipeline.control.redirect
      r.machine.counters.squashed) :
    GoesOn start passed retired c r.executePhase.awaitFetch.fetchWait := by
  have hd : r.executePhase.awaitFetch.fetchWait.ahead = r.ahead :=
    ahead_congr rfl rfl rfl
  refine ⟨[], .of_same hicache, ?_⟩
  rw [List.append_nil, hd]
  exact .of_moved [] hr hleft rfl rfl rfl (by rw [List.append_nil]; exact h)

/-- What a redirect throws away is one turn of the route. -/
theorem GoesOn.turning {target : Word}
    (hslot : r.pipeline.slots.fetch.isFetched = true)
    (h : Route start passed (retired ++ c.inFlight) (some target) r.machine.counters.squashed) :
    GoesOn start passed retired c (r.executePhase.redirectPhase target).fetchPhase := by
  rw [redirectPhase_eq]
  refine OnRoute.fetched hicache (.of_moved [] hr hleft rfl rfl ?_ ?_)
  · simp [discard_not_live]
  · have hone : r.executePhase.pipeline.slots.fetch.isFetched.toNat = 1 :=
      congrArg Bool.toNat hslot
    rw [List.append_nil, hone]
    exact h.turn

theorem GoesOn.vacant (hi : r.pipeline.slots.fetch = .idle)
    (h : Route start (passed ++ r.ahead) (retired ++ c.inFlight) r.pipeline.control.redirect
      r.machine.counters.squashed) :
    GoesOn start passed retired c (r.executePhase.setDecode .idle).fetchPhase := by
  have haim : (r.executePhase.setDecode .idle).aim = r.ahead := by
    unfold ahead begun
    rw [hi]
    rfl
  refine OnRoute.fetched hicache (.of_moved [] hr hleft rfl rfl rfl ?_)
  rw [List.append_nil, haim]
  exact h

theorem GoesOn.taking (hm : r.Orderly)
    (hi : r.pipeline.slots.fetch.isFetched = true)
    (hs : r.pipeline.control.fetchStall = 0)
    (h : Route start passed (retired ++ c.inFlight) none r.machine.counters.squashed) :
    GoesOn start passed retired c r.executePhase.takeLegal.resolvePhase.fetchPhase := by
  have hlive : [r.executePhase.decodedWord].filter (·.isLive) = [r.executePhase.decodedWord] := by
    simp [(decodedWord_spec (c := r.executePhase) hi).live]
  have hd : r.executePhase.takeLegal.OnRoute start
      (passed ++ r.executePhase.takeLegal.aim)
      (retired ++ [c.pipeline.slots.memory].filter (·.isLive)) :=
    .of_moved _ hr hleft rfl rfl hlive (hm.executePhase.route_takeLegal hi h)
  have hicache' : r.executePhase.takeLegal.resolvePhase.machine.icache = c.machine.icache := by
    rw [machine_resolvePhase]
    exact hicache
  rw [← aim_resolvePhase] at hd
  exact OnRoute.fetched hicache'
    (hd.resolvePhase (steered_takeLegal (c := r.executePhase) hs hi))

end Ways

/-- Every cycle goes on along the route. -/
theorem OnRoute.movingCycle (h : c.OnRoute start (passed ++ c.ahead) retired) (ho : c.Orderly)
    (hx : c.movingCycle.machine.counters.exceptions = 0) :
    GoesOn start passed retired c c.movingCycle := by
  obtain ⟨hf, hm, hissue⟩ := ho.halves hx
  obtain ⟨hq, hr, hahead, hleft⟩ := frontEnd_retireHalf hf
  obtain ⟨hicache, -⟩ := c.machine_retireHalf
  unfold OnRoute at h
  rw [← hahead, ← hq, ← hr] at h
  show GoesOn start passed retired c c.retireHalf.issueHalf
  cases hissue with
  | held k hk e => rw [e]; exact .held rfl hicache hleft k hm h
  | awaiting hk hr' hs e => rw [e]; exact .awaiting rfl hicache hleft h
  | turning target hk hr' e =>
    have hslot := (hm.fetched_of_redirect hr').1
    rw [hr', ahead_of_fetched hslot, List.append_nil] at h
    rw [e]
    exact .turning rfl hicache hleft hslot h
  | vacant hk hr' hs hi e => rw [e]; exact .vacant rfl hicache hleft hi h
  | taking hk hr' hs hi hl e =>
    rw [hr', ahead_of_fetched hi, List.append_nil] at h
    rw [e]
    exact .taking rfl hicache hleft hm hi hs h

end Cycle

section Run

variable {c : Core} {start : Word} {passed : List Word} {retired : List Instruction}

/-- A cycle without an exception, moving or not. -/
theorem OnRoute.tick (h : c.OnRoute start (passed ++ c.ahead) retired) (ho : c.Orderly)
    (hx : c.tick.machine.counters.exceptions = 0) :
    c.Fetches c.tick c.fetches ∧
      c.tick.OnRoute start (passed ++ c.fetches ++ c.tick.ahead) (retired ++ c.retiring) := by
  have step : ∃ addrs, c.Fetches c.tick addrs ∧
      c.tick.OnRoute start (passed ++ addrs ++ c.tick.ahead) (retired ++ c.retiring) := by
    cases ht : c.pipeline.status.isTerminal with
    | true =>
      refine ⟨[], .of_same (by rw [tick_of_terminal ht]), ?_⟩
      rw [tick_of_terminal ht, retiring_of_terminal ht, List.append_nil, List.append_nil]
      exact h
    | false =>
      have hs := RunStatus.eq_success ht
      rcases Nat.eq_zero_or_pos c.pipeline.control.memStall with hm | hm
      · rw [tick_of_moving hs hm] at hx ⊢
        rw [retiring_of_moving hs hm]
        obtain ⟨addrs, hf, hr⟩ := OnRoute.movingCycle (c := c.countCycle) h ho.countCycle hx
        exact ⟨addrs, ⟨hf.presented, hf.icache⟩, hr⟩
      · rw [tick_of_frozen hs hm, retiring_of_frozen hs hm]
        refine ⟨[], .of_same rfl, ?_⟩
        rw [List.append_nil, List.append_nil]
        exact h
  obtain ⟨addrs, hf, hr⟩ := step
  have hfetches : c.fetches = addrs := hf.presented
  rw [hfetches]
  exact ⟨hf, hr⟩

/-- The addresses that a run without exceptions has presented to the instruction cache. -/
theorem OnRoute.run {c : Core} (h : c.OnRoute start c.ahead []) (ho : c.Orderly) (n : Nat)
    (hx : (runTicks n c).machine.counters.exceptions = 0) :
    (runTicks n c).OnRoute start (stream fetches n c ++ (runTicks n c).ahead)
        (Core.retired n c) ∧
      (runTicks n c).machine.icache = c.machine.icache.feed (stream fetches n c) := by
  induction n with
  | zero => exact ⟨h, rfl⟩
  | succ n ih =>
    rw [runTicks_one_more] at hx
    have hx' := Nat.le_zero.mp (hx ▸ exceptions_le_tick (runTicks n c))
    obtain ⟨hr, hi⟩ := ih hx'
    obtain ⟨hf, hr'⟩ := hr.tick (ho.run n hx') hx
    rw [stream_one_more, runTicks_one_more, retired_one_more, Cache.feed_append, ← hi]
    exact ⟨hr', hf.icache⟩

end Run

end Core

end FiveStage
