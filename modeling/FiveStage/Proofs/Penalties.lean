import FiveStage.Proofs.Coherence
import FiveStage.Proofs.StallLengths

/-! # How long the misses of the caches last

Both caches may be missing at once. The penalty of the instruction cache is counted down by every
cycle, whether it is frozen, holds decode or waits for fetch; what has been fetched stays in its
slot until the penalty is over and decode moves on, unless a redirect throws it away first. The
penalty of the data cache freezes the cycles behind the miss, one for each cycle of its latency, and
no others. A cycle does one of three things to the word that fetch holds (`Core.Disposes`), and one
of two to the data cache (`Core.stalls_tick`); the runs are counted off from there. -/

namespace FiveStage

open Instruction

namespace Core

/-- The next cycle is one of an outstanding miss of the data cache. -/
def frozen (c : Core) : Bool := !c.pipeline.status.isTerminal && 0 < c.pipeline.control.memStall

/-- The next cycle misses the instruction cache. -/
def fetchMisses (c : Core) : Bool := c.machine.icache.misses < c.tick.machine.icache.misses

/-- The next cycle misses the data cache. -/
def dataMisses (c : Core) : Bool := c.machine.dcache.misses < c.tick.machine.dcache.misses

/-- Decode moves on in the next cycle: nothing is frozen, and nothing holds the instruction in it
when the first half of the cycle is over. -/
def advances (c : Core) : Bool := c.moves && c.countCycle.retireHalf.hold?.isNone

/-- Decode moves on in the next cycle and turns fetch to another address, which may be that of the
handler for a fault of this cycle. -/
def turns (c : Core) : Bool :=
  c.advances && c.countCycle.retireHalf.pipeline.control.redirect.isSome

/-- The next cycle leaves the fetched word where it is. -/
structure Keeps (c : Core) : Prop where
  fetch : c.tick.pipeline.slots.fetch = c.pipeline.slots.fetch
  nextId : c.tick.machine.nextId = c.machine.nextId
  fetchStall : c.tick.pipeline.control.fetchStall = c.pipeline.control.fetchStall - 1

/-- The next cycle moves the fetched word on to decode, which numbers it. -/
structure Takes (c : Core) : Prop where
  live : c.tick.pipeline.slots.decode.isLive = true
  pc : c.tick.pipeline.slots.decode.pc = c.pipeline.slots.fetch.pc
  raw : c.tick.pipeline.slots.decode.raw = c.pipeline.slots.fetch.raw
  id : c.tick.pipeline.slots.decode.id = c.machine.nextId
  nextId : c.tick.machine.nextId = c.machine.nextId + 1

/-- The next cycle throws the fetched word away and fetches the word at the target. Nothing is left
of an old penalty: fetch stalls only if it misses at the target. -/
structure Drops (c : Core) : Prop where
  decode : c.tick.pipeline.slots.decode = c.pipeline.slots.fetch.squash
  nextId : c.tick.machine.nextId = c.machine.nextId
  squashed : c.machine.counters.squashed < c.tick.machine.counters.squashed
  target : c.countCycle.retireHalf.pipeline.control.redirect =
    some c.tick.pipeline.slots.fetch.pc
  fetchStall : c.tick.pipeline.control.fetchStall =
    if c.fetchMisses then c.machine.icache.geometry.missLatency else 0

/-- What the next cycle does with the word that fetch holds. -/
inductive Disposes (c : Core) : Prop
  /-- it stays: decode does not move on, or the penalty is not over -/
  | keeps (turns : c.turns = false)
      (waits : c.advances = false ∨ 0 < c.pipeline.control.fetchStall) (kept : c.Keeps)
  /-- decode takes it -/
  | takes (turns : c.turns = false) (advances : c.advances = true)
      (elapsed : c.pipeline.control.fetchStall = 0) (taken : c.Takes)
  /-- a redirect throws it away -/
  | drops (turns : c.turns = true) (dropped : c.Drops)

section Phases

variable {c : Core}

/-- A fault has no part in the stalls of either cache. -/
theorem stalls_retireHalf (c : Core) :
    c.retireHalf.pipeline.control.fetchStall = c.pipeline.control.fetchStall ∧
      c.retireHalf.pipeline.control.memStall =
        c.writebackPhase.accessPhase.pipeline.control.memStall := by
  have hraise : ∀ d : Core, d.raise.pipeline.control.fetchStall = d.pipeline.control.fetchStall ∧
      d.raise.pipeline.control.memStall = d.pipeline.control.memStall := by
    intro d
    unfold raise
    dsimp only
    split <;> exact ⟨rfl, rfl⟩
  rcases c.retireHalf_cases with ⟨-, e⟩ | ⟨-, -, e⟩ | ⟨-, -, e⟩
  · rw [e]
    exact ⟨rfl, rfl⟩
  · rw [e]
    exact hraise _
  · rw [e, pipeline_flushDecode]
    exact hraise _

/-- What a moving fetch that is not stalled adds to the misses of its cache is its stall. -/
theorem stall_fetchPhase (hs : c.pipeline.control.fetchStall = 0) :
    c.fetchPhase.machine.icache.misses = c.machine.icache.misses ∧
        c.fetchPhase.pipeline.control.fetchStall = 0 ∨
      c.fetchPhase.machine.icache.misses = c.machine.icache.misses + 1 ∧
        c.fetchPhase.pipeline.control.fetchStall = c.machine.icache.geometry.missLatency ∧
        c.fetchPhase.pipeline.slots.fetch.isFetched = true := by
  cases hh : c.pipeline.control.fetchHalted with
  | true =>
    rw [show c.fetchPhase = _ from if_pos hh]
    exact .inl ⟨rfl, hs⟩
  | false =>
    have hslot := (fetch_fetchPhase hh).1
    rw [show c.fetchPhase = _ from if_neg (Bool.eq_false_iff.1 hh)] at hslot ⊢
    have hmiss := c.machine.icache.misses_access c.machine.pc
    cases hc : c.machine.icache.contains c.machine.pc with
    | true =>
      rw [hc] at hmiss
      refine .inl ⟨hmiss, ?_⟩
      exact (if_pos hc).trans hs
    | false =>
      rw [hc] at hmiss
      refine .inr ⟨hmiss, ?_, hslot⟩
      refine (if_neg (Bool.eq_false_iff.1 hc)).trans ?_
      exact congrArg Geometry.missLatency (Cache.geometry_access _ _)

/-- What the phases of the second half leave of the caches and of the stall of the data cache. -/
structure Untouched (c d : Core) : Prop where
  icache : d.machine.icache = c.machine.icache
  dcache : d.machine.dcache = c.machine.dcache
  memStall : d.pipeline.control.memStall = c.pipeline.control.memStall

/-- What is left when decode has taken over the fetched word. -/
structure Decoding (c d : Core) : Prop extends Untouched c d where
  nextId : d.machine.nextId = c.machine.nextId + 1
  fetchStall : d.pipeline.control.fetchStall = c.pipeline.control.fetchStall
  decode : d.pipeline.slots.decode.outline =
    { c.decodedWord.outline with nextPc := d.pipeline.slots.decode.nextPc }

theorem decoding_of_taking
    (hdecode : c.executePhase.decodePhase =
      ({ c.executePhase with
        machine := { c.machine with nextId := c.machine.nextId + 1 } }.dispatch
          c.decodedWord).setDecode c.decodedWord) :
    c.Decoding c.executePhase.decodePhase.resolvePhase := by
  obtain ⟨_, _, _, _, _, _, e, -⟩ := dispatch_shape (c :=
    { c.executePhase with machine := { c.machine with nextId := c.machine.nextId + 1 } })
    c.decodedWord
  rw [e] at hdecode
  have hd : c.executePhase.decodePhase.pipeline.slots.decode = c.decodedWord := by rw [hdecode]; rfl
  rcases c.executePhase.decodePhase.resolvePhase_cases with er | ⟨-, i, hi, er⟩
  · rw [er, hdecode]
    exact ⟨⟨rfl, rfl, rfl⟩, rfl, rfl, rfl⟩
  · rw [hd] at hi
    rw [er, hdecode]
    exact ⟨⟨rfl, rfl, rfl⟩, rfl, rfl, hi⟩

/-- The second half of a cycle ends with a fetch that nothing stalls, or it does not fetch. -/
theorem fetches_issueHalf
    (hslot : c.pipeline.slots.fetch.isFetched = true ∨ c.pipeline.slots.fetch = .idle) :
    c.Untouched c.issueHalf ∨
      ∃ d, c.issueHalf = d.fetchPhase ∧ c.Untouched d ∧ d.pipeline.control.fetchStall = 0 := by
  cases c.course hslot with
  | held k _ e =>
    obtain ⟨_, -, -, eh⟩ := holdPhase_shape c k
    obtain ⟨_, _, _, er⟩ := resolvePhase_shape (c.holdPhase k)
    rw [e, er, eh]
    exact .inl ⟨rfl, rfl, rfl⟩
  | awaiting _ _ _ e =>
    rw [e]
    exact .inl ⟨rfl, rfl, rfl⟩
  | turning target _ _ e =>
    refine .inr ⟨_, e, ?_⟩
    rw [redirectPhase_eq]
    exact ⟨⟨rfl, rfl, rfl⟩, rfl⟩
  | vacant _ _ hs _ e => exact .inr ⟨_, e, ⟨rfl, rfl, rfl⟩, hs⟩
  | taking _ _ hs _ ed e =>
    have hd := decoding_of_taking ed
    exact .inr ⟨_, e, hd.toUntouched, hd.fetchStall.trans hs⟩

/-- The second half of a cycle has no part in the data cache. -/
theorem dcache_issueHalf
    (hslot : c.pipeline.slots.fetch.isFetched = true ∨ c.pipeline.slots.fetch = .idle) :
    c.issueHalf.machine.dcache = c.machine.dcache ∧
      c.issueHalf.pipeline.control.memStall = c.pipeline.control.memStall := by
  rcases fetches_issueHalf hslot with hwait | ⟨d, e, hd, -⟩
  · exact ⟨hwait.dcache, hwait.memStall⟩
  · obtain ⟨_, _, _, _, ef⟩ := fetchPhase_shape d
    rw [e, ef]
    exact ⟨hd.dcache, hd.memStall⟩

/-- A miss of the second half of a cycle leaves the word in the slot and all of its penalty to
come. -/
theorem stall_issueHalf
    (hslot : c.pipeline.slots.fetch.isFetched = true ∨ c.pipeline.slots.fetch = .idle) :
    c.issueHalf.machine.icache.misses = c.machine.icache.misses ∨
      c.issueHalf.machine.icache.misses = c.machine.icache.misses + 1 ∧
        c.issueHalf.pipeline.control.fetchStall = c.machine.icache.geometry.missLatency ∧
        c.issueHalf.pipeline.slots.fetch.isFetched = true := by
  rcases fetches_issueHalf hslot with hwait | ⟨d, e, hd, hs⟩
  · exact .inl (congrArg Cache.misses hwait.icache)
  · rw [e, ← hd.icache]
    exact (stall_fetchPhase hs).imp And.left id

/-- The first half of a cycle stalls for what it adds to the misses of the data cache. -/
theorem stall_retireHalf (hm : c.pipeline.control.memStall = 0) :
    c.retireHalf.machine.dcache.misses = c.machine.dcache.misses ∧
        c.retireHalf.pipeline.control.memStall = 0 ∨
      c.retireHalf.machine.dcache.misses = c.machine.dcache.misses + 1 ∧
        c.retireHalf.pipeline.control.memStall = c.machine.dcache.geometry.missLatency := by
  obtain ⟨-, hmisses, hstall⟩ := c.stall_accessPhase
  obtain ⟨-, -, -, hd⟩ := c.machine_retireHalf
  rw [hd, c.stalls_retireHalf.2, hmisses, hstall]
  cases c.hits with
  | true => exact .inl ⟨rfl, hm⟩
  | false => exact .inr ⟨rfl, rfl⟩

end Phases

section Cycle

variable {c : Core}

theorem moves_iff : c.moves = true ↔
    c.pipeline.status = .success ∧ c.pipeline.control.memStall = 0 := by
  unfold moves
  cases c.pipeline.status <;> simp [RunStatus.isTerminal]

theorem frozen_iff : c.frozen = true ↔
    c.pipeline.status = .success ∧ 0 < c.pipeline.control.memStall := by
  unfold frozen
  cases c.pipeline.status <;> simp [RunStatus.isTerminal]

/-- A cycle is frozen or it moves, unless the run has ended. -/
theorem frozen_or_moves (hrun : c.pipeline.status.isTerminal = false) :
    c.frozen = true ∨ c.moves = true := by
  have hs := RunStatus.eq_success hrun
  rcases Nat.eq_zero_or_pos c.pipeline.control.memStall with hm | hm
  · exact .inr (moves_iff.mpr ⟨hs, hm⟩)
  · exact .inl (frozen_iff.mpr ⟨hs, hm⟩)

theorem tick_eq_of_moves (h : c.moves = true) : c.tick = c.countCycle.retireHalf.issueHalf := by
  obtain ⟨hs, hm⟩ := moves_iff.mp h
  exact tick_of_moving hs hm

theorem tick_eq_of_frozen (h : c.frozen = true) : c.tick = c.countCycle.frozenCycle := by
  obtain ⟨hs, hm⟩ := frozen_iff.mp h
  exact tick_of_frozen hs hm

theorem advances_of_moves (h : c.moves = true) :
    c.advances = c.countCycle.retireHalf.hold?.isNone := by
  rw [advances, h, Bool.true_and]

theorem not_advances_of_frozen (h : c.frozen = true) : c.advances = false := by
  have hm := (frozen_iff.mp h).2
  have : c.moves = false :=
    Bool.eq_false_iff.mpr fun hmoves => absurd (moves_iff.mp hmoves).2 (Nat.ne_of_gt hm)
  rw [advances, this, Bool.false_and]

theorem not_turns_of_not_advances (h : c.advances = false) : c.turns = false := by
  rw [turns, h, Bool.false_and]

/-- The first half of a cycle leaves the front end alone. -/
theorem front_retireHalf (c : Core) :
    c.countCycle.retireHalf.pipeline.slots.fetch = c.pipeline.slots.fetch ∧
      c.countCycle.retireHalf.pipeline.control.fetchStall = c.pipeline.control.fetchStall ∧
      c.countCycle.retireHalf.machine.nextId = c.machine.nextId ∧
      c.countCycle.retireHalf.machine.icache = c.machine.icache := by
  obtain ⟨hi, -, hn, -⟩ := c.countCycle.machine_retireHalf
  refine ⟨?_, c.countCycle.stalls_retireHalf.1, hn, hi⟩
  rw [c.countCycle.slots_retireHalf]
  rfl

/-- What becomes of the fetched word in a cycle that turns. -/
theorem drops_of_turning (hf : c.pipeline.slots.fetch.isFetched = true) {target : Word}
    (hr : c.countCycle.retireHalf.pipeline.control.redirect = some target)
    (e : c.tick = (c.countCycle.retireHalf.executePhase.redirectPhase target).fetchPhase) :
    c.Drops := by
  obtain ⟨hslot, -, hnext, hicache⟩ := c.front_retireHalf
  have hcount := c.countCycle.counters_retireHalf
  generalize hg : c.countCycle.retireHalf = r at hr e hslot hnext hicache hcount
  have ed := redirectPhase_eq r.executePhase target
  generalize hd : r.executePhase.redirectPhase target = d at e ed
  have hstall : d.pipeline.control.fetchStall = 0 := by rw [ed]
  have hicache' : d.machine.icache = c.machine.icache := by rw [ed]; exact hicache
  obtain ⟨-, hpc, -, -⟩ := fetch_fetchPhase (c := d) (by rw [ed])
  obtain ⟨enext, ecount, edecode, -⟩ := fetchPhase_fields d
  have hmiss := stall_fetchPhase hstall
  rw [← e] at hpc enext ecount edecode hmiss
  refine ⟨?_, ?_, ?_, ?_, ?_⟩
  · rw [edecode, ed]
    show discard r.pipeline.slots.fetch = _
    rw [hslot, discard, if_pos hf]
  · rw [enext, ed]
    exact hnext
  · rw [ecount, ed]
    show _ < r.machine.counters.squashed + r.pipeline.slots.fetch.isFetched.toNat
    rw [hslot, hf, hcount]
    exact Nat.lt_succ_of_le (Nat.le_add_right _ _)
  · rw [hg, hr, hpc, ed]
  · rw [hicache'] at hmiss
    unfold fetchMisses
    rcases hmiss with ⟨hm, hs⟩ | ⟨hm, hs, -⟩
    · rw [hs, hm]
      simp
    · rw [hs, hm]
      simp

/-- What becomes of the fetched word in a cycle that decodes it. -/
theorem takes_of_taking (hf : c.pipeline.slots.fetch.isFetched = true)
    {d : Core} (hd : c.countCycle.retireHalf.Decoding d) (e : c.tick = d.fetchPhase) : c.Takes := by
  obtain ⟨hslot, -, hnext, -⟩ := c.front_retireHalf
  have hw := decodedWord_spec (c := c.countCycle.retireHalf) (by rw [hslot]; exact hf)
  obtain ⟨enext, -, edecode, -⟩ := fetchPhase_fields d
  rw [← e] at enext edecode
  refine ⟨?_, ?_, ?_, ?_, ?_⟩
  · rw [edecode]
    exact (congrArg (fun o => o.isLive) hd.decode).trans hw.live
  · rw [edecode, ← hslot]
    exact (congrArg (fun o => o.pc) hd.decode).trans hw.pc
  · rw [edecode, ← hslot]
    exact (congrArg (fun o => o.raw) hd.decode).trans hw.raw
  · rw [edecode, ← hnext]
    exact (congrArg (fun o => o.id) hd.decode).trans hw.id
  · rw [enext, ← hnext]
    exact hd.nextId

/-- Every cycle of a run that goes on does one of the three things to the fetched word. -/
theorem disposes (hrun : c.pipeline.status.isTerminal = false)
    (hf : c.pipeline.slots.fetch.isFetched = true) : c.Disposes := by
  rcases frozen_or_moves hrun with hz | hm
  · have ha := not_advances_of_frozen hz
    have e := tick_eq_of_frozen hz
    exact .keeps (not_turns_of_not_advances ha) (.inl ha)
      ⟨by rw [e]; rfl, by rw [e]; rfl, by rw [e]; rfl⟩
  · have ha := advances_of_moves hm
    have ht := tick_eq_of_moves hm
    obtain ⟨hslot, hstall, hnext, -⟩ := c.front_retireHalf
    have hf' : c.countCycle.retireHalf.pipeline.slots.fetch.isFetched = true := by
      rw [hslot]
      exact hf
    cases c.countCycle.retireHalf.course (.inl hf') with
    | held k hk e =>
      rw [hk] at ha
      obtain ⟨_, -, -, eh⟩ := holdPhase_shape c.countCycle.retireHalf k
      obtain ⟨_, _, _, er⟩ := resolvePhase_shape (c.countCycle.retireHalf.holdPhase k)
      rw [e, er, eh] at ht
      exact .keeps (not_turns_of_not_advances ha) (.inl ha)
        ⟨by rw [ht]; exact hslot, by rw [ht]; exact hnext, by rw [ht, ← hstall]; rfl⟩
    | awaiting hk hr hs e =>
      have hturns : c.turns = false := by rw [turns, hr, Option.isSome_none, Bool.and_false]
      rw [e] at ht
      exact .keeps hturns (.inr (hstall ▸ hs))
        ⟨by rw [ht]; exact hslot, by rw [ht]; exact hnext, by rw [ht, ← hstall]; rfl⟩
    | turning target hk hr e =>
      rw [hk] at ha
      have hturns : c.turns = true := by rw [turns, ha, hr]; rfl
      exact .drops hturns (drops_of_turning hf hr (ht.trans e))
    | vacant _ _ _ hi _ =>
      rw [hi] at hf'
      exact absurd hf' (by decide)
    | taking hk hr hs _ ed e =>
      rw [hk] at ha
      have hturns : c.turns = false := by rw [turns, hr, Option.isSome_none, Bool.and_false]
      exact .takes hturns ha (hstall ▸ hs)
        (takes_of_taking hf (decoding_of_taking ed) (ht.trans e))

theorem Disposes.drops_of_turns (h : c.Disposes) (ht : c.turns = true) : c.Drops := by
  cases h with
  | keeps h1 => exact absurd (h1.symm.trans ht) (by decide)
  | takes h1 => exact absurd (h1.symm.trans ht) (by decide)
  | drops _ hdropped => exact hdropped

theorem Disposes.keeps_of_waits (h : c.Disposes) (ht : c.turns = false)
    (hw : 0 < c.pipeline.control.fetchStall ∨ c.advances = false) : c.Keeps := by
  cases h with
  | keeps _ _ hkept => exact hkept
  | takes _ ha hover =>
    rcases hw with hw | hw
    · exact absurd hover (Nat.ne_of_gt hw)
    · exact absurd (ha.symm.trans hw) (by decide)
  | drops h1 => exact absurd (h1.symm.trans ht) (by decide)

theorem Disposes.takes_of_advances (h : c.Disposes) (ht : c.turns = false)
    (hover : c.pipeline.control.fetchStall = 0) (ha : c.advances = true) : c.Takes := by
  cases h with
  | keeps _ hw =>
    rcases hw with hw | hw
    · exact absurd (ha.symm.trans hw) (by decide)
    · exact absurd hover (Nat.ne_of_gt hw)
  | takes _ _ _ htaken => exact htaken
  | drops h1 => exact absurd (h1.symm.trans ht) (by decide)

/-- Only a cycle that moves touches the caches. -/
theorem moves_of_changed {β : Type} (f : Machine → β)
    (hf : ∀ m counters, f { m with counters } = f m)
    (h : f c.tick.machine ≠ f c.machine) : c.moves = true := by
  cases hrun : c.pipeline.status.isTerminal with
  | true => exact absurd (congrArg (fun d => f d.machine) (tick_of_terminal hrun)) h
  | false =>
    refine (frozen_or_moves hrun).resolve_left fun hz => h ?_
    rw [tick_eq_of_frozen hz]
    exact (hf _ _).trans (hf _ _)

theorem moves_of_fetchMisses (h : c.fetchMisses = true) : c.moves = true :=
  moves_of_changed (·.icache.misses) (fun _ _ => rfl) (Nat.ne_of_gt (of_decide_eq_true h))

theorem moves_of_dataMisses (h : c.dataMisses = true) : c.moves = true :=
  moves_of_changed (·.dcache.misses) (fun _ _ => rfl) (Nat.ne_of_gt (of_decide_eq_true h))

/-- A cycle that misses the instruction cache fetches a word and has all of the penalty to come. -/
theorem fetched_of_misses
    (hslot : c.pipeline.slots.fetch.isFetched = true ∨ c.pipeline.slots.fetch = .idle)
    (h : c.fetchMisses = true) :
    c.tick.pipeline.control.fetchStall = c.machine.icache.geometry.missLatency ∧
      c.tick.pipeline.slots.fetch.isFetched = true := by
  obtain ⟨hfetch, -, -, hicache⟩ := c.front_retireHalf
  have hstall := stall_issueHalf (c := c.countCycle.retireHalf) (by rw [hfetch]; exact hslot)
  rw [← tick_eq_of_moves (moves_of_fetchMisses h), hicache] at hstall
  rcases hstall with heq | ⟨-, hs, hf⟩
  · exact absurd heq (Nat.ne_of_gt (of_decide_eq_true h))
  · exact ⟨hs, hf⟩

/-- A cycle that is not frozen stalls the next ones if it misses the data cache, and only then. -/
theorem memStall_of_moves
    (hslot : c.pipeline.slots.fetch.isFetched = true ∨ c.pipeline.slots.fetch = .idle)
    (hm : c.moves = true) :
    c.tick.pipeline.control.memStall =
      if c.dataMisses then c.machine.dcache.geometry.missLatency else 0 := by
  obtain ⟨hfetch, -⟩ := c.front_retireHalf
  obtain ⟨hd, hstall⟩ :=
    dcache_issueHalf (c := c.countCycle.retireHalf) (by rw [hfetch]; exact hslot)
  rw [← tick_eq_of_moves hm] at hd hstall
  unfold dataMisses
  rw [hd, hstall]
  rcases stall_retireHalf (c := c.countCycle) (moves_iff.mp hm).2 with ⟨h1, h2⟩ | ⟨h1, h2⟩
  · rw [h1, h2]
    exact (if_neg (by simp [countCycle])).symm
  · rw [h1, h2]
    exact (if_pos (by simp [countCycle])).symm

end Cycle

section Run

variable {d : Core}

/-- A fetched word that is neither taken nor thrown away stays where it is, and every cycle takes
one off its penalty. -/
theorem kept_run (hf : d.pipeline.slots.fetch.isFetched = true) {k : Nat}
    (hrun : (runTicks k d).pipeline.status.isTerminal = false)
    (hstay : ∀ j < k, (runTicks j d).turns = false ∧
      (d.pipeline.control.fetchStall ≤ j → (runTicks j d).advances = false)) :
    (runTicks k d).pipeline.slots.fetch = d.pipeline.slots.fetch ∧
      (runTicks k d).machine.nextId = d.machine.nextId ∧
      (runTicks k d).pipeline.control.fetchStall = d.pipeline.control.fetchStall - k := by
  induction k with
  | zero => exact ⟨rfl, rfl, rfl⟩
  | succ k ih =>
    rw [runTicks_one_more] at hrun ⊢
    have hrun' := running_of_tick hrun
    obtain ⟨hfetch, hnext, hstall⟩ := ih hrun' fun j hj => hstay j (Nat.lt_succ_of_lt hj)
    obtain ⟨hturns, hadvances⟩ := hstay k (Nat.lt_succ_self k)
    have hwaits : 0 < (runTicks k d).pipeline.control.fetchStall ∨
        (runTicks k d).advances = false := by
      rcases Nat.lt_or_ge k d.pipeline.control.fetchStall with hlt | hle
      · exact .inl (hstall ▸ Nat.sub_pos_of_lt hlt)
      · exact .inr (hadvances hle)
    have hkept := (disposes hrun' (by rw [hfetch]; exact hf)).keeps_of_waits hturns hwaits
    exact ⟨hkept.fetch.trans hfetch, hkept.nextId.trans hnext,
      hkept.fetchStall.trans (by rw [hstall, Nat.sub_sub])⟩

/-- A miss of the data cache that has begun is counted down to its end. -/
theorem memStall_run (hrun : d.pipeline.status.isTerminal = false) {j : Nat}
    (hj : j ≤ d.pipeline.control.memStall) :
    (runTicks j d).pipeline.status.isTerminal = false ∧
      (runTicks j d).pipeline.control.memStall = d.pipeline.control.memStall - j := by
  induction j with
  | zero => exact ⟨hrun, rfl⟩
  | succ j ih =>
    obtain ⟨hrun', hstall⟩ := ih (Nat.le_of_succ_le hj)
    have hz : (runTicks j d).frozen = true :=
      frozen_iff.mpr ⟨RunStatus.eq_success hrun', hstall ▸ Nat.sub_pos_of_lt hj⟩
    rw [runTicks_one_more, tick_eq_of_frozen hz]
    refine ⟨hrun', ?_⟩
    rw [← Nat.sub_sub, ← hstall]
    rfl

theorem running_of_moves {c : Core} (h : c.moves = true) :
    c.pipeline.status.isTerminal = false := by
  rw [(moves_iff.mp h).1]
  rfl

/-- A cycle of a run that moves stalls the next ones if it misses the data cache, and only then. -/
theorem memStall_of_moves_run (m : Machine) {n : Nat} (hm : (runTicks n m.core).moves = true) :
    (runTicks (n + 1) m.core).pipeline.control.memStall =
      if (runTicks n m.core).dataMisses then m.dcache.geometry.missLatency else 0 := by
  have hc := (coherent_core m).run n (running_of_moves hm)
  rw [runTicks_one_more, memStall_of_moves hc.slot hm, hc.dcacheGeometry]

/-- A frozen cycle belongs to a miss of the data cache, and the rest of its penalty is to come. -/
theorem missed_of_frozen (m : Machine) {n : Nat} (hz : (runTicks n m.core).frozen = true) :
    ∃ t j, (runTicks t m.core).dataMisses = true ∧ n = t + 1 + j ∧
      (runTicks n m.core).pipeline.control.memStall + j = m.dcache.geometry.missLatency := by
  induction n with
  | zero => exact absurd (frozen_iff.mp hz).2 (Nat.lt_irrefl 0)
  | succ n ih =>
    obtain ⟨hs, hpos⟩ := frozen_iff.mp hz
    have hrun : (runTicks n m.core).pipeline.status.isTerminal = false := by
      refine running_of_tick ?_
      rw [← runTicks_one_more, hs]
      rfl
    rcases frozen_or_moves hrun with hz' | hm
    · obtain ⟨t, j, ht, hn, hleft⟩ := ih hz'
      have hstall : (runTicks (n + 1) m.core).pipeline.control.memStall =
          (runTicks n m.core).pipeline.control.memStall - 1 := by
        rw [runTicks_one_more, tick_eq_of_frozen hz']
        rfl
      exact ⟨t, j + 1, ht, by omega, by omega⟩
    · have hstall := memStall_of_moves_run m hm
      cases ht : (runTicks n m.core).dataMisses with
      | true =>
        rw [ht, if_pos rfl] at hstall
        exact ⟨n, 0, ht, rfl, hstall⟩
      | false =>
        rw [ht, if_neg (by decide)] at hstall
        exact absurd hstall (Nat.ne_of_gt hpos)

/-- Behind a miss of the data cache as many cycles are frozen as its latency says. -/
theorem frozen_of_misses (m : Machine) {t : Nat} (ht : (runTicks t m.core).dataMisses = true)
    (hrun : (runTicks (t + 1) m.core).pipeline.status.isTerminal = false) :
    (∀ n, t < n → n ≤ t + m.dcache.geometry.missLatency →
        (runTicks n m.core).frozen = true) ∧
      (runTicks (t + 1 + m.dcache.geometry.missLatency) m.core).moves = true := by
  have hstall := memStall_of_moves_run m (moves_of_dataMisses ht)
  rw [ht, if_pos rfl] at hstall
  rw [← hstall]
  refine ⟨fun n hlt hle => ?_, ?_⟩
  · obtain ⟨j, rfl⟩ := Nat.exists_eq_add_of_le (show t + 1 ≤ n from hlt)
    obtain ⟨hrun', hleft⟩ := memStall_run (j := j) hrun (by omega)
    rw [runTicks_add]
    exact frozen_iff.mpr ⟨RunStatus.eq_success hrun', by omega⟩
  · obtain ⟨hrun', hleft⟩ := memStall_run hrun (Nat.le_refl _)
    rw [runTicks_add]
    exact moves_iff.mpr ⟨RunStatus.eq_success hrun', by omega⟩

end Run

end Core

/-- The penalties of misses last exactly as long as the latencies say, in every run of every
machine, and they overlap. What a cycle fetches with a miss stays in its slot until as many cycles
have passed as the instruction cache takes, frozen cycles and those in which decode is held being
counted, and the first cycle behind them in which decode moves on decodes it; unless a redirect
throws it away before that, of whose penalty nothing is left. A miss of the data cache freezes as
many of the cycles behind it as the data cache takes, unless its cycle has ended the run; no other
cycle is frozen; and a frozen cycle changes nothing but the writeback slot, the two stalls and two
counters. -/
theorem miss_penalties_elapse (m : Machine) :
    (∀ f k, (Core.runTicks f m.core).fetchMisses = true →
      let d := Core.runTicks (f + 1) m.core
      let c := Core.runTicks k d
      let latency := m.icache.geometry.missLatency
      c.pipeline.status.isTerminal = false →
      (∀ j < k, (Core.runTicks j d).turns = false ∧
        (latency ≤ j → (Core.runTicks j d).advances = false)) →
      c.pipeline.slots.fetch = d.pipeline.slots.fetch ∧
        c.pipeline.slots.fetch.isFetched = true ∧ c.machine.nextId = d.machine.nextId ∧
        c.pipeline.control.fetchStall = latency - k ∧
        (c.turns = true → c.Drops) ∧
        (c.turns = false → k < latency ∨ c.advances = false → c.Keeps) ∧
        (c.turns = false → latency ≤ k → c.advances = true → c.Takes)) ∧
    (∀ t, (Core.runTicks t m.core).dataMisses = true →
      (Core.runTicks (t + 1) m.core).pipeline.status.isTerminal = false →
      (∀ n, t < n → n ≤ t + m.dcache.geometry.missLatency →
        (Core.runTicks n m.core).frozen = true) ∧
        (Core.runTicks (t + 1 + m.dcache.geometry.missLatency) m.core).moves = true) ∧
    (∀ n, (Core.runTicks n m.core).frozen = true →
      (∃ t < n, (Core.runTicks t m.core).dataMisses = true ∧
        n ≤ t + m.dcache.geometry.missLatency) ∧
      let c := Core.runTicks n m.core
      Core.runTicks (n + 1) m.core =
        { machine :=
            { c.machine with
              counters :=
                { c.machine.counters with
                  cycles := c.machine.counters.cycles + 1
                  dcacheStallCycles := c.machine.counters.dcacheStallCycles + 1 } }
          pipeline :=
            { c.pipeline with
              slots := { c.pipeline.slots with writeback := .bubble }
              control :=
                { c.pipeline.control with
                  memStall := c.pipeline.control.memStall - 1
                  fetchStall := c.pipeline.control.fetchStall - 1 } } }) := by
  refine ⟨fun f k hmiss => ?_, fun t => Core.frozen_of_misses m, fun n hz => ⟨?_, ?_⟩⟩
  · have hc :=
      (Core.coherent_core m).run f (Core.running_of_moves (Core.moves_of_fetchMisses hmiss))
    obtain ⟨hstall, hf⟩ := Core.fetched_of_misses hc.slot hmiss
    rw [← Core.runTicks_one_more, hc.icacheGeometry] at hstall
    rw [← Core.runTicks_one_more] at hf
    intro d c latency hrun hstay
    obtain ⟨hfetch, hnext, hleft⟩ := Core.kept_run hf hrun (by rw [hstall]; exact hstay)
    rw [hstall] at hleft
    have hf' : c.pipeline.slots.fetch.isFetched = true := by rw [hfetch]; exact hf
    have hdisposes := Core.disposes hrun hf'
    refine ⟨hfetch, hf', hnext, hleft, hdisposes.drops_of_turns, fun ht hw => ?_, fun ht hle => ?_⟩
    · refine hdisposes.keeps_of_waits ht (hw.imp (fun hlt => ?_) id)
      exact hleft ▸ Nat.sub_pos_of_lt hlt
    · exact hdisposes.takes_of_advances ht (hleft.trans (Nat.sub_eq_zero_of_le hle))
  · obtain ⟨t, j, ht, hn, hleft⟩ := Core.missed_of_frozen m hz
    have := (Core.frozen_iff.mp hz).2
    exact ⟨t, by omega, ht, by omega⟩
  · rw [Core.runTicks_one_more, Core.tick_eq_of_frozen hz]
    rfl

/-- A machine about to load a word and to jump, with blocks of one word in its instruction cache. -/
def Machine.overlapping : Machine :=
  .ofConfig { instructionCache.blockBytes := 4, dataCache.missLatency := 3 }
    (.ofWords 0 [0x00003283, 0x0080006F, InstWord.halt, InstWord.halt, 0, 0]) .zero

/-- The jump is fetched with a miss in cycle 6 and decoded in cycle 12, though the load misses in
cycle 8 and freezes three of the cycles between. What is fetched behind the jump misses in cycle 12
and is thrown away in the next one. -/
theorem miss_penalties_elapse_overlapping :
    (Core.runTicks 6 Machine.overlapping.core).fetchMisses = true ∧
      (Core.runTicks 8 Machine.overlapping.core).dataMisses = true ∧
      (∀ n, 8 < n → n ≤ 11 → (Core.runTicks n Machine.overlapping.core).frozen = true) ∧
      (Core.runTicks 12 Machine.overlapping.core).Takes ∧
      (Core.runTicks 12 Machine.overlapping.core).fetchMisses = true ∧
      (Core.runTicks 13 Machine.overlapping.core).Drops := by
  obtain ⟨hfetch, hdata, -⟩ := miss_penalties_elapse Machine.overlapping
  have hfirst : (Core.runTicks 6 Machine.overlapping.core).fetchMisses = true := by decide +kernel
  have hload : (Core.runTicks 8 Machine.overlapping.core).dataMisses = true := by decide +kernel
  have hsecond : (Core.runTicks 12 Machine.overlapping.core).fetchMisses = true := by
    decide +kernel
  obtain ⟨-, -, -, -, -, -, htakes⟩ := hfetch 6 5 hfirst (by decide +kernel) (by decide +kernel)
  obtain ⟨-, -, -, -, hdrops, -⟩ := hfetch 12 0 hsecond (by decide +kernel) nofun
  refine ⟨hfirst, hload, (hdata 8 hload (by decide +kernel)).1, ?_, hsecond, ?_⟩
  · have htaken := htakes (by decide +kernel) (by decide) (by decide +kernel)
    rwa [← Core.runTicks_add] at htaken
  · exact hdrops (by decide +kernel)

end FiveStage
