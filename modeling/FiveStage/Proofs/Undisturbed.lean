import FiveStage.Proofs.InFlight

/-! # Cycles without an exception

In a cycle that raises no exception the first half of the cycle is the plain one, and the second
half goes one of five ways (`Issue`). Such a cycle keeps the front end in order (`Orderly`): fetch
is behind the decoded instruction until a branch that waits in decode is resolved, or it has been
steered to the target of one, or it rests behind the halt word. -/

namespace FiveStage

open Instruction

/-- The address of the successor, if it is not the next word. -/
def Instruction.turn? (i : Instruction) : Option Word :=
  if i.nextPc = i.fallThrough then none else some i.nextPc

theorem turn?_of_fallThrough {i : Instruction} (h : i.nextPc = i.fallThrough) : i.turn? = none :=
  if_pos h

namespace Core

/-- Decode has taken over a legal word, with what it asks of fetch. -/
def takeLegal (c : Core) : Core :=
  c.takeWord c.machine.counters c.decodedWord.needsOperands c.decodedWord.turn?
    c.pipeline.control.exceptionRaised c.decodedWord.flags.halt

/-- The ways the second half of a cycle can go if it raises no exception. -/
inductive Issue (c : Core) : Prop
  /-- the instruction in decode waits -/
  | held (k : Hold) (hold : c.hold? = some k)
      (issue : c.issueHalf = (c.holdPhase k).resolvePhase.fetchWait)
  /-- decode waits for fetch -/
  | awaiting (hold : c.hold? = none) (redirect : c.pipeline.control.redirect = none)
      (stall : 0 < c.pipeline.control.fetchStall)
      (issue : c.issueHalf = c.executePhase.awaitFetch.fetchWait)
  /-- fetch turns to another address -/
  | turning (target : Word) (hold : c.hold? = none)
      (redirect : c.pipeline.control.redirect = some target)
      (issue : c.issueHalf = (c.executePhase.redirectPhase target).fetchPhase)
  /-- there is nothing to decode -/
  | vacant (hold : c.hold? = none) (redirect : c.pipeline.control.redirect = none)
      (stall : c.pipeline.control.fetchStall = 0) (slot : c.pipeline.slots.fetch = .idle)
      (issue : c.issueHalf = (c.executePhase.setDecode .idle).fetchPhase)
  /-- decode takes over the fetched word -/
  | taking (hold : c.hold? = none) (redirect : c.pipeline.control.redirect = none)
      (stall : c.pipeline.control.fetchStall = 0) (slot : c.pipeline.slots.fetch.isFetched = true)
      (legal : c.decodedWord.flags.legal = true)
      (issue : c.issueHalf = c.executePhase.takeLegal.resolvePhase.fetchPhase)

section Decoding

variable {c : Core}

/-- The word behind a branch or jump that waits, or behind the halt word, comes next as far as
decode knows. -/
theorem nextPc_decodedWord (hf : c.pipeline.slots.fetch.isFetched = true)
    (h : c.decodedWord.needsOperands = true ∨ c.decodedWord.flags.halt = true) :
    c.decodedWord.nextPc = c.decodedWord.fallThrough := by
  have hw := decodedWord_spec hf
  rw [(hw.decoded .idle).nextPc]
  split
  · rfl
  next hn =>
    have hh := h.resolve_left hn
    rw [hw.flags] at hh
    apply successor_of_not_control
    rw [(hw.decoded .idle).isControl_eq]
    exact not_control_of_inert _ _ _ (.inr hh)

theorem halt_decodedWord (hf : c.pipeline.slots.fetch.isFetched = true)
    (h : c.decodedWord.needsOperands = true) : c.decodedWord.flags.halt = false := by
  have hw := decodedWord_spec hf
  rw [hw.flags]
  exact (halt_of_needsOperands hw.flags hw.opcode h).2

/-- Decode takes over a legal word. -/
theorem decodePhase_of_legal (hr : c.pipeline.control.redirect = none)
    (hs : c.pipeline.control.fetchStall = 0) (hf : c.pipeline.slots.fetch.isFetched = true)
    (hp : c.pipeline.control.controlPending = false)
    (hh : c.pipeline.control.fetchHalted = false) (hl : c.decodedWord.flags.legal = true) :
    c.decodePhase = c.takeLegal := by
  have hcontrol : c.pipeline.control =
      { c.pipeline.control with
        controlPending := false, redirect := none, fetchHalted := false } := by
    cases hc : c.pipeline.control with
    | mk =>
      rw [hc] at hr hp hh
      cases hr
      cases hp
      cases hh
      rfl
  rw [decodePhase_of_fetched hr hs hf, dispatch, if_neg (by simp [hl]), takeLegal]
  cases hhalt : c.decodedWord.flags.halt with
  | true =>
    have hn : c.decodedWord.needsOperands = false := by
      apply Bool.eq_false_iff.mpr
      intro hn
      rw [halt_decodedWord hf hn] at hhalt
      cases hhalt
    rw [hn, turn?_of_fallThrough (nextPc_decodedWord hf (.inr hhalt)), if_pos rfl, hcontrol]
    rfl
  | false =>
    cases hn : c.decodedWord.needsOperands with
    | true =>
      rw [turn?_of_fallThrough (nextPc_decodedWord hf (.inl hn)), if_neg (by simp), if_pos rfl,
        hcontrol]
      rfl
    | false =>
      rw [if_neg (by simp), if_neg (by simp)]
      by_cases ht : c.decodedWord.nextPc = c.decodedWord.fallThrough
      · rw [turn?_of_fallThrough ht, if_neg (not_not_intro ht), takeWord, ← hcontrol]
        rfl
      · rw [turn?, if_neg ht, if_pos ht, hcontrol]
        rfl

end Decoding

/-- A second half that raises no exception goes one of the five ways. -/
theorem issue_of_exceptions {c : Core}
    (hf : c.pipeline.slots.fetch.isFetched = true ∨ c.pipeline.slots.fetch = .idle)
    (hh : c.pipeline.slots.fetch.isFetched = true → c.pipeline.control.fetchHalted = false)
    (hx : c.issueHalf.machine.counters.exceptions = 0) : c.Issue := by
  cases c.course hf with
  | held k hk e => exact .held k hk e
  | awaiting hk hr hs e => exact .awaiting hk hr hs e
  | turning target hk hr e => exact .turning target hk hr e
  | vacant hk hr hs hi e => exact .vacant hk hr hs hi e
  | taking hk hr hs hi ed e =>
    have hl : c.decodedWord.flags.legal = true := by
      -- an illegal word would be counted as an exception
      have honward := (onward_resolvePhase c.executePhase.decodePhase).trans (onward_fetchPhase _)
      have hle := honward.exceptions
      rw [← e, hx, ed, setDecode, machine_dispatch] at hle
      cases hl : c.decodedWord.flags.legal with
      | true => rfl
      | false =>
        rw [hl] at hle
        exact absurd hle (Nat.not_succ_le_zero _)
    have et : c.executePhase.decodePhase = c.executePhase.takeLegal :=
      decodePhase_of_legal hr hs hi (MidCycle.not_held hk).1 (hh hi) hl
    rw [et] at e
    exact .taking hk hr hs hi hl e

/-- What decode asks of fetch: while a branch or jump waits, its successor is not known and fetch
goes on behind it; behind the halt word fetch rests. -/
structure Steered (c : Core) : Prop where
  waiting : c.pipeline.control.controlPending = true →
    c.pipeline.control.redirect = none ∧ c.pipeline.control.fetchHalted = false ∧
      c.pipeline.slots.decode.isLive = true ∧ c.pipeline.slots.decode.flags.halt = false ∧
      c.pipeline.slots.decode.nextPc = c.pipeline.slots.decode.fallThrough
  resting : c.pipeline.control.fetchHalted = true →
    c.pipeline.control.redirect = none ∧ c.pipeline.control.fetchStall = 0 ∧
      c.pipeline.slots.decode.flags.readsRs1 = false ∧
      c.pipeline.slots.decode.flags.readsRs2 = false

/-- What fetch holds. -/
inductive Fetching (c : Core) : Prop
  /-- nothing has been fetched yet -/
  | starting (slot : c.pipeline.slots.fetch = .idle)
      (halted : c.pipeline.control.fetchHalted = false)
      (redirect : c.pipeline.control.redirect = none)
      (pending : c.pipeline.control.controlPending = false)
  /-- the word in front of the program counter -/
  | following (slot : c.pipeline.slots.fetch.isFetched = true)
      (halted : c.pipeline.control.fetchHalted = false)
      (pc : c.machine.pc = c.pipeline.slots.fetch.fallThrough)
  /-- nothing more behind the halt word -/
  | resting (slot : c.pipeline.slots.fetch = .idle)
      (halted : c.pipeline.control.fetchHalted = true)

/-- The front end of a run without exceptions. -/
structure Orderly (c : Core) : Prop extends Steered c where
  fetching : c.Fetching

variable {c : Core}

theorem Fetching.slot (h : c.Fetching) :
    c.pipeline.slots.fetch.isFetched = true ∨ c.pipeline.slots.fetch = .idle := by
  cases h with
  | starting h1 => exact .inr h1
  | following h1 => exact .inl h1
  | resting h1 => exact .inr h1

theorem Fetching.of_fetched (h : c.Fetching) (hf : c.pipeline.slots.fetch.isFetched = true) :
    c.pipeline.control.fetchHalted = false ∧
      c.machine.pc = c.pipeline.slots.fetch.fallThrough := by
  cases h with
  | following _ h2 h3 => exact ⟨h2, h3⟩
  | starting h1 =>
    rw [h1] at hf
    cases hf
  | resting h1 =>
    rw [h1] at hf
    cases hf

/-- What fetch holds is told by its slot, the program counter and what decode asks of it. -/
theorem Fetching.congr {d : Core} (h : c.Fetching)
    (hslot : d.pipeline.slots.fetch = c.pipeline.slots.fetch)
    (hhalted : d.pipeline.control.fetchHalted = c.pipeline.control.fetchHalted)
    (hpc : d.machine.pc = c.machine.pc)
    (hredirect : d.pipeline.control.redirect = c.pipeline.control.redirect)
    (hpending : d.pipeline.control.controlPending = c.pipeline.control.controlPending) :
    d.Fetching := by
  cases h with
  | starting h1 h2 h3 h4 =>
    exact .starting (hslot.trans h1) (hhalted.trans h2) (hredirect.trans h3) (hpending.trans h4)
  | following h1 h2 h3 =>
    refine .following (hslot ▸ h1) (hhalted.trans h2) ?_
    rw [hpc, hslot]
    exact h3
  | resting h1 h2 => exact .resting (hslot.trans h1) (hhalted.trans h2)

theorem Fetching.resolvePhase (h : c.Fetching) : c.resolvePhase.Fetching := by
  rcases c.resolvePhase_cases with e | ⟨hp, i, -, e⟩
  · rw [e]
    exact h
  · rw [e]
    cases h with
    | starting _ _ _ h4 =>
      rw [h4] at hp
      cases hp
    | following h1 h2 h3 => exact .following h1 h2 h3
    | resting h1 h2 => exact .resting h1 h2

/-- A moving fetch brings in the word at the program counter, or rests. -/
theorem fetching_fetchPhase (c : Core) : c.fetchPhase.Fetching := by
  cases hh : c.pipeline.control.fetchHalted with
  | true =>
    rw [show c.fetchPhase = _ from if_pos hh]
    exact .resting rfl hh
  | false =>
    obtain ⟨hslot, hpc, -, hnext⟩ := fetch_fetchPhase hh
    obtain ⟨_, _, _, _, e⟩ := fetchPhase_shape c
    rw [e] at hslot hpc hnext ⊢
    refine .following hslot hh ?_
    rw [hnext, fallThrough_eq, hpc]

theorem Steered.resolvePhase (h : c.Steered) : c.resolvePhase.Steered := by
  rcases c.resolvePhase_cases with e | ⟨hp, i, -, e⟩
  · rw [e]
    exact h
  · rw [e]
    refine ⟨nofun, ?_⟩
    intro hh
    have := (h.waiting hp).2.1
    rw [this] at hh
    cases hh

theorem Steered.fetchPhase (h : c.Steered) : c.fetchPhase.Orderly := by
  refine ⟨?_, fetching_fetchPhase c⟩
  cases hh : c.pipeline.control.fetchHalted with
  | true =>
    rw [show c.fetchPhase = _ from if_pos hh]
    exact ⟨h.waiting, h.resting⟩
  | false =>
    obtain ⟨_, _, _, _, e⟩ := fetchPhase_shape c
    rw [e]
    refine ⟨h.waiting, ?_⟩
    intro hh'
    exact absurd (hh'.symm.trans hh) (by decide)

theorem Orderly.fetchWait (h : c.Orderly) : c.fetchWait.Orderly := by
  refine ⟨⟨h.waiting, ?_⟩, h.fetching.congr rfl rfl rfl rfl rfl⟩
  intro hh
  obtain ⟨hr, hs, hflags⟩ := h.resting hh
  refine ⟨hr, ?_, hflags⟩
  show c.pipeline.control.fetchStall - 1 = 0
  rw [hs]

theorem Orderly.resolvePhase (h : c.Orderly) : c.resolvePhase.Orderly :=
  ⟨h.toSteered.resolvePhase, h.fetching.resolvePhase⟩

theorem Orderly.holdPhase (h : c.Orderly) (k : Hold) : (c.holdPhase k).Orderly := by
  obtain ⟨_, -, -, e⟩ := holdPhase_shape c k
  rw [e, forward_shape]
  exact ⟨⟨h.waiting, h.resting⟩, h.fetching.congr rfl rfl rfl rfl rfl⟩

theorem Orderly.executePhase (h : c.Orderly) : c.executePhase.Orderly :=
  ⟨⟨h.waiting, h.resting⟩, h.fetching.congr rfl rfl rfl rfl rfl⟩

theorem steered_takeLegal (hs : c.pipeline.control.fetchStall = 0)
    (hi : c.pipeline.slots.fetch.isFetched = true) : c.takeLegal.Steered := by
  have hw := decodedWord_spec hi
  refine ⟨?_, ?_⟩
  · intro hn
    have hnext := nextPc_decodedWord hi (.inl hn)
    have hh := halt_decodedWord hi hn
    exact ⟨turn?_of_fallThrough hnext, hh, hw.live, hh, hnext⟩
  · intro hh
    have hhalt : c.decodedWord.raw.flags.halt = true := by
      rw [← hw.flags]
      exact hh
    obtain ⟨-, -, -, h1, h2⟩ := InstWord.flags_of_inert (.inr hhalt)
    refine ⟨turn?_of_fallThrough (nextPc_decodedWord hi (.inr hh)), hs, ?_, ?_⟩
    · exact (congrArg Flags.readsRs1 hw.flags).trans h1
    · exact (congrArg Flags.readsRs2 hw.flags).trans h2

/-- The front end stays in order. -/
theorem Orderly.issueHalf (h : c.Orderly) (hx : c.Issue) : c.issueHalf.Orderly := by
  have not_pending : c.hold? = none → c.pipeline.control.controlPending = false :=
    fun hk => (MidCycle.not_held hk).1
  cases hx with
  | held k hk e =>
    rw [e]
    exact (h.holdPhase k).resolvePhase.fetchWait
  | awaiting hk hr hs e =>
    rw [e]
    refine Orderly.fetchWait ⟨⟨?_, ?_⟩, ?_⟩
    · intro hp'
      exact absurd (hp'.symm.trans (not_pending hk)) (by decide)
    · intro hh
      exact absurd (h.resting hh).2.1 (Nat.ne_of_gt hs)
    · exact h.fetching.congr rfl rfl rfl rfl rfl
  | turning target hk hr e =>
    rw [e, redirectPhase_eq]
    refine Steered.fetchPhase ⟨?_, nofun⟩
    intro hp'
    exact absurd (hp'.symm.trans (not_pending hk)) (by decide)
  | vacant hk hr hs hi e =>
    rw [e]
    refine Steered.fetchPhase ⟨?_, fun _ => ⟨hr, hs, rfl, rfl⟩⟩
    intro hp'
    exact absurd (hp'.symm.trans (not_pending hk)) (by decide)
  | taking hk hr hs hi hl e =>
    rw [e]
    exact (steered_takeLegal (c := c.executePhase) hs hi).resolvePhase.fetchPhase

/-- The second half of a cycle does not touch the data cache. -/
theorem Issue.keeps (h : c.Issue) :
    c.issueHalf.machine.dcache = c.machine.dcache ∧
      c.issueHalf.pipeline.control.memStall = c.pipeline.control.memStall := by
  have fetched : ∀ d : Core, d.fetchPhase.machine.dcache = d.machine.dcache ∧
      d.fetchPhase.pipeline.control.memStall = d.pipeline.control.memStall := by
    intro d
    obtain ⟨_, _, _, _, e⟩ := fetchPhase_shape d
    rw [e]
    exact ⟨rfl, rfl⟩
  cases h with
  | held k _ e =>
    obtain ⟨_, _, _, er⟩ := resolvePhase_shape (c.holdPhase k)
    rw [e, er]
    cases k <;> exact ⟨rfl, rfl⟩
  | awaiting _ _ _ e =>
    rw [e]
    exact ⟨rfl, rfl⟩
  | turning target _ _ e =>
    rw [e, redirectPhase_eq]
    exact fetched _
  | vacant _ _ _ _ e =>
    rw [e]
    exact fetched _
  | taking _ _ _ _ _ e =>
    obtain ⟨_, _, _, er⟩ := resolvePhase_shape c.executePhase.takeLegal
    rw [e, er]
    exact fetched _

section Cycle

/-- A cycle without an exception has no failing access. -/
theorem not_faults_of_exceptions (h : c.movingCycle.machine.counters.exceptions = 0) :
    c.faults = false := by
  have hle := (onward_issueHalf c.retireHalf).exceptions
  rw [counters_retireHalf, show c.retireHalf.issueHalf = c.movingCycle from rfl, h] at hle
  cases hf : c.faults with
  | false => rfl
  | true =>
    rw [hf] at hle
    exact absurd hle (Nat.not_succ_le_zero _)

theorem retireHalf_of_not_faults (h : c.faults = false) :
    c.retireHalf = c.writebackPhase.accessPhase := by
  rcases c.retireHalf_cases with ⟨-, e⟩ | ⟨hf, -⟩ | ⟨hf, -⟩
  · exact e
  · exact absurd (hf.symm.trans h) (by decide)
  · exact absurd (hf.symm.trans h) (by decide)

theorem not_flushes_of_not_faults (h : c.faults = false) : c.flushes = false := by
  rw [flushes, h]
  rfl

/-- The first half of a cycle leaves the front end alone. -/
theorem Orderly.retireHalf (h : c.Orderly) (hf : c.faults = false) : c.retireHalf.Orderly := by
  obtain ⟨-, hpc, -, -⟩ := c.machine_retireHalf
  rw [retireHalf_of_not_faults hf] at hpc ⊢
  exact ⟨⟨h.waiting, h.resting⟩, h.fetching.congr rfl rfl hpc rfl rfl⟩

/-- The two halves of a cycle without an exception. -/
theorem Orderly.halves (h : c.Orderly) (hx : c.movingCycle.machine.counters.exceptions = 0) :
    c.faults = false ∧ c.retireHalf.Orderly ∧ c.retireHalf.Issue := by
  have hf := not_faults_of_exceptions hx
  have hm := h.retireHalf hf
  exact ⟨hf, hm, issue_of_exceptions hm.fetching.slot (fun hi => (hm.fetching.of_fetched hi).1) hx⟩

theorem Orderly.countCycle (h : c.Orderly) : c.countCycle.Orderly :=
  ⟨⟨h.waiting, h.resting⟩, h.fetching.congr rfl rfl rfl rfl rfl⟩

/-- The front end stays in order from one cycle to the next. -/
theorem Orderly.tick (h : c.Orderly) (hx : c.tick.machine.counters.exceptions = 0) :
    c.tick.Orderly := by
  cases ht : c.pipeline.status.isTerminal with
  | true =>
    rw [tick_of_terminal ht]
    exact h
  | false =>
    have hs := RunStatus.eq_success ht
    have hc := h.countCycle
    rcases Nat.eq_zero_or_pos c.pipeline.control.memStall with hm | hm
    · rw [tick_of_moving hs hm] at hx ⊢
      obtain ⟨-, hmid, hissue⟩ := hc.halves hx
      exact hmid.issueHalf hissue
    · rw [tick_of_frozen hs hm]
      -- what a frozen cycle changes of the front end a waiting fetch changes too
      exact ⟨⟨hc.fetchWait.waiting, hc.fetchWait.resting⟩,
        hc.fetching.congr rfl rfl rfl rfl rfl⟩

theorem Orderly.run (h : c.Orderly) (n : Nat)
    (hx : (runTicks n c).machine.counters.exceptions = 0) : (runTicks n c).Orderly := by
  induction n with
  | zero => exact h
  | succ n ih =>
    rw [runTicks_one_more] at hx ⊢
    exact (ih (Nat.le_zero.mp (hx ▸ exceptions_le_tick _))).tick hx

end Cycle

end Core

end FiveStage
