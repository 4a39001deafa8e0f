import FiveStage.Proofs.ExceptionCounts
import FiveStage.Proofs.Penalties

/-! # What decode asks of fetch

A branch that waits in decode and a redirect that is pending each belong to the instruction that
decode holds, and until fetch turns it holds the speculative word behind that instruction
(`Core.Guided`). This holds of every state, whatever the cycles before it have raised. A cycle then
does one of four things to what the program is to decode next (`Core.Proceeds`): it leaves it as it
is, it makes it known, it decodes it, or a fault puts the handler in its place. -/

namespace FiveStage

open Instruction

/-- What sends fetch to an address: a branch or jump that does not go on to the next word, or a word
that is no instruction, which goes to the handler. -/
inductive Instruction.Steers (i : Instruction) (target : Word) : Prop
  | control (live : i.isLive = true) (control : i.isControl = true) (next : i.nextPc = target)
      (turns : target ≠ i.fallThrough)
  | illegal (live : i.isLive = true) (legal : i.flags.legal = false)
      (handler : target = exceptionHandler)

theorem Instruction.Steers.live {i : Instruction} {target : Word} (h : i.Steers target) :
    i.isLive = true := by
  cases h with
  | control hlive => exact hlive
  | illegal hlive => exact hlive

theorem Instruction.Steers.congr {i j : Instruction} {target : Word} (h : i.Steers target)
    (ho : j.outline = i.outline) : j.Steers target := by
  have hlive : j.isLive = i.isLive := congrArg (fun o => o.isLive) ho
  have hcontrol : j.isControl = i.isControl := congrArg (fun o => o.isControl) ho
  have hnext : j.nextPc = i.nextPc := congrArg (fun o => o.nextPc) ho
  have hpc : j.fallThrough = i.fallThrough := congrArg (fun o => o.fallThrough) ho
  have hlegal : j.flags.legal = i.flags.legal := congrArg (fun o => o.flags.legal) ho
  cases h with
  | control h1 h2 h3 h4 =>
    exact .control (hlive.trans h1) (hcontrol.trans h2) (hnext.trans h3) (hpc ▸ h4)
  | illegal h1 h2 h3 => exact .illegal (hlive.trans h1) (hlegal.trans h2) h3

namespace Core

/-- What decode asks of fetch belongs to the instruction it holds, and fetch heeds it. `next` is
where fetch goes on as long as nothing else is known. -/
structure Guides (c : Core) (heeded : Prop) (next : Word) : Prop where
  waiting : c.pipeline.control.controlPending = true →
    c.pipeline.slots.decode.isLive = true ∧ c.pipeline.slots.decode.needsOperands = true ∧
      c.pipeline.control.redirect = none ∧ heeded ∧ next = c.pipeline.slots.decode.fallThrough
  steered : ∀ target, c.pipeline.control.redirect = some target →
    heeded ∧ c.pipeline.slots.decode.Steers target

/-- The front end between two cycles. -/
structure Guided (c : Core) : Prop where
  fetching : c.Fetching
  guides : c.Guides (c.pipeline.slots.fetch.status = .speculative) c.pipeline.slots.fetch.pc

/-- The address of what is going to be decoded next, as far as it is known. -/
def upcoming (c : Core) : Word :=
  c.pipeline.control.redirect.getD
    (if c.pipeline.slots.fetch.isFetched then c.pipeline.slots.fetch.pc else c.machine.pc)

/-- What a cycle does to what the program is to decode next. -/
inductive Proceeds (c d : Core) : Prop
  /-- it stays the same -/
  | stays (pending : d.pipeline.control.controlPending = c.pipeline.control.controlPending)
      (decode : d.pipeline.slots.decode.outline = c.pipeline.slots.decode.outline ∨
        d.pipeline.control.controlPending = false ∧ d.pipeline.slots.decode.isLive = false)
      (upcoming : d.upcoming = c.upcoming)
      (raised : d.pipeline.control.exceptionRaised = c.pipeline.control.exceptionRaised)
      (nextId : d.machine.nextId = c.machine.nextId)
  /-- a branch or jump that waits is resolved -/
  | resolves (before : c.pipeline.control.controlPending = true)
      (after : d.pipeline.control.controlPending = false)
      (decode : d.pipeline.slots.decode.outline =
        { c.pipeline.slots.decode.outline with nextPc := d.pipeline.slots.decode.nextPc })
      (upcoming : d.upcoming = d.pipeline.slots.decode.nextPc)
      (raised : d.pipeline.control.exceptionRaised = c.pipeline.control.exceptionRaised)
      (nextId : d.machine.nextId = c.machine.nextId)
  /-- it is decoded -/
  | takes (pending : c.pipeline.control.controlPending = false)
      (live : d.pipeline.slots.decode.isLive = true)
      (pc : d.pipeline.slots.decode.pc = c.upcoming)
      (next : d.pipeline.slots.decode.flags.legal = true →
        d.pipeline.control.exceptionRaised = c.pipeline.control.exceptionRaised ∧
          d.upcoming = d.pipeline.slots.decode.nextPc)
      (nextId : d.machine.nextId = c.machine.nextId + 1)
  /-- the first failing access sends fetch to the handler -/
  | diverts (before : c.pipeline.control.exceptionRaised = false)
      (after : d.pipeline.control.exceptionRaised = true)
      (pending : d.pipeline.control.controlPending = false)
      (decode : d.pipeline.slots.decode.isLive = false)
      (upcoming : d.upcoming = exceptionHandler) (nextId : d.machine.nextId = c.machine.nextId)

/-- Fetch has turned to an address, and what it held before is thrown away. -/
structure Turned (c : Core) (target : Word) (d : Core) : Prop where
  guided : d.Guided
  redirect : d.pipeline.control.redirect = none
  pending : d.pipeline.control.controlPending = false
  raised : d.pipeline.control.exceptionRaised = c.pipeline.control.exceptionRaised
  nextId : d.machine.nextId = c.machine.nextId
  fetched : d.pipeline.slots.fetch.isFetched = true
  fetch : d.pipeline.slots.fetch.pc = target
  decode : d.pipeline.slots.decode = discard c.pipeline.slots.fetch

/-- Nothing that steers the front end has changed. -/
structure Spared (c d : Core) : Prop where
  fetch : d.pipeline.slots.fetch = c.pipeline.slots.fetch
  decode : d.pipeline.slots.decode.outline = c.pipeline.slots.decode.outline
  pc : d.machine.pc = c.machine.pc
  nextId : d.machine.nextId = c.machine.nextId
  pending : d.pipeline.control.controlPending = c.pipeline.control.controlPending
  redirect : d.pipeline.control.redirect = c.pipeline.control.redirect
  halted : d.pipeline.control.fetchHalted = c.pipeline.control.fetchHalted
  raised : d.pipeline.control.exceptionRaised = c.pipeline.control.exceptionRaised

variable {c d r : Core} {heeded : Prop} {next : Word}

section Phases

/-- Nothing waits and nothing steers. -/
theorem Guides.of_none (hp : c.pipeline.control.controlPending = false)
    (hr : c.pipeline.control.redirect = none) : c.Guides heeded next where
  waiting hp' := absurd (hp.symm.trans hp') (by decide)
  steered target ht := absurd (hr.symm.trans ht) (Option.some_ne_none target).symm

theorem Guides.congr (h : c.Guides heeded next)
    (ho : d.pipeline.slots.decode.outline = c.pipeline.slots.decode.outline)
    (hp : d.pipeline.control.controlPending = c.pipeline.control.controlPending)
    (hr : d.pipeline.control.redirect = c.pipeline.control.redirect) : d.Guides heeded next where
  waiting hp' := by
    obtain ⟨hlive, hneeds, hredirect, hheeded, hnext⟩ := h.waiting (hp ▸ hp')
    refine ⟨?_, ?_, hr.trans hredirect, hheeded, hnext.trans ?_⟩
    · exact (congrArg (fun o => o.isLive) ho).trans hlive
    · exact (congrArg (fun o => o.needsOperands) ho).trans hneeds
    · exact (congrArg (fun o => o.fallThrough) ho).symm
  steered target ht := by
    obtain ⟨hheeded, hsteers⟩ := h.steered target (hr ▸ ht)
    exact ⟨hheeded, hsteers.congr ho⟩

/-- A branch or jump that waits goes on waiting, or its successor is known and fetch is steered to
it unless it goes there anyway. -/
theorem Guides.resolves (h : c.Guides heeded next) :
    c.resolvePhase = c ∨
      c.pipeline.control.controlPending = true ∧
        c.resolvePhase.pipeline.control.controlPending = false ∧
        c.resolvePhase.pipeline.slots.decode.outline =
          { c.pipeline.slots.decode.outline with
            nextPc := c.resolvePhase.pipeline.slots.decode.nextPc } ∧
        c.resolvePhase.pipeline.control.redirect.getD next =
          c.resolvePhase.pipeline.slots.decode.nextPc := by
  rcases c.resolvePhase_cases with e | ⟨hp, i, ho, e⟩
  · exact .inl e
  · obtain ⟨-, -, hredirect, -, hnext⟩ := h.waiting hp
    have hfall : i.fallThrough = c.pipeline.slots.decode.fallThrough :=
      congrArg (fun o => o.fallThrough) ho
    rw [e]
    refine .inr ⟨hp, rfl, ho, ?_⟩
    show (if i.nextPc ≠ i.fallThrough then some i.nextPc
      else c.pipeline.control.redirect).getD next = i.nextPc
    by_cases ht : i.nextPc = i.fallThrough
    · rw [if_neg (not_not_intro ht), hredirect, Option.getD_none, hnext, ht, hfall]
    · rw [if_pos ht, Option.getD_some]

theorem Guides.resolvePhase (h : c.Guides heeded next) : c.resolvePhase.Guides heeded next := by
  rcases c.resolvePhase_cases with e | ⟨hp, i, ho, e⟩
  · rw [e]
    exact h
  · obtain ⟨hlive, hneeds, hredirect, hheeded, -⟩ := h.waiting hp
    have hcontrol := isControl_of_needsOperands hneeds
    rw [e]
    refine ⟨nofun, fun target ht => ⟨hheeded, ?_⟩⟩
    have ht : (if i.nextPc ≠ i.fallThrough then some i.nextPc
      else c.pipeline.control.redirect) = some target := ht
    split at ht
    next hturns =>
      cases ht
      exact .control ((congrArg (fun o => o.isLive) ho).trans hlive)
        ((congrArg (fun o => o.isControl) ho).trans hcontrol) rfl hturns
    next => exact absurd (hredirect.symm.trans ht) (Option.some_ne_none target).symm

theorem status_fetchPhase (hh : c.pipeline.control.fetchHalted = false) :
    c.fetchPhase.pipeline.slots.fetch.status =
      if c.pipeline.control.controlPending || c.pipeline.control.redirect.isSome then .speculative
      else .normal := by
  rw [show c.fetchPhase = _ from if_neg (Bool.eq_false_iff.1 hh)]
  rfl

/-- What is fetched behind a branch that waits or a redirect that is pending is speculative. -/
theorem Guides.fetchPhase
    (h : c.Guides (c.pipeline.control.fetchHalted = false) c.machine.pc) : c.fetchPhase.Guided := by
  refine ⟨fetching_fetchPhase c, ?_⟩
  have hstatus := status_fetchPhase (c := c)
  have hpc := fun hh => (fetch_fetchPhase (c := c) hh).2.1
  obtain ⟨_, _, _, _, e⟩ := fetchPhase_shape c
  rw [e] at hstatus hpc ⊢
  refine ⟨?_, ?_⟩
  · intro hp
    have hp : c.pipeline.control.controlPending = true := hp
    obtain ⟨hlive, hneeds, hredirect, hheeded, hnext⟩ := h.waiting hp
    refine ⟨hlive, hneeds, hredirect, (hstatus hheeded).trans ?_, (hpc hheeded).trans hnext⟩
    rw [hp]
    rfl
  · intro target ht
    have ht : c.pipeline.control.redirect = some target := ht
    obtain ⟨hheeded, hsteers⟩ := h.steered target ht
    refine ⟨(hstatus hheeded).trans ?_, hsteers⟩
    rw [ht, Option.isSome_some, Bool.or_true]
    rfl

/-- What a moving fetch leaves for decode is what it was about to go to. -/
theorem upcoming_fetchPhase (c : Core) :
    c.fetchPhase.upcoming = c.pipeline.control.redirect.getD c.machine.pc := by
  cases hh : c.pipeline.control.fetchHalted with
  | true =>
    rw [show c.fetchPhase = _ from if_pos hh]
    rfl
  | false =>
    obtain ⟨hslot, hpc, -, -⟩ := fetch_fetchPhase hh
    obtain ⟨_, _, _, _, e⟩ := fetchPhase_shape c
    rw [e] at hslot hpc ⊢
    rw [upcoming, if_pos hslot, hpc]

theorem turned (hk : c.hold? = none) (target : Word) :
    c.Turned target (c.executePhase.redirectPhase target).fetchPhase := by
  have hp : c.pipeline.control.controlPending = false := (MidCycle.not_held hk).1
  have e := redirectPhase_eq c.executePhase target
  generalize c.executePhase.redirectPhase target = d at e
  obtain ⟨hslot, hpc, -, -⟩ := fetch_fetchPhase (c := d) (by rw [e])
  have hguided : d.fetchPhase.Guided :=
    Guides.fetchPhase (.of_none (by rw [e]; exact hp) (by rw [e]))
  obtain ⟨_, _, _, _, ef⟩ := fetchPhase_shape d
  rw [ef] at hslot hpc hguided ⊢
  rw [e] at hpc
  exact {
    guided := hguided
    redirect := by rw [e]
    pending := by rw [e]; exact hp
    raised := by rw [e]; rfl
    nextId := by rw [e]; rfl
    fetched := hslot
    fetch := hpc
    decode := by rw [e]; rfl }

theorem Turned.upcoming {target : Word} (h : c.Turned target d) : d.upcoming = target := by
  rw [Core.upcoming, h.redirect, if_pos h.fetched, h.fetch]
  rfl

end Phases

section Spared

theorem Spared.guided (h : c.Spared d) (hc : c.Guided) : d.Guided := by
  refine ⟨hc.fetching.congr h.fetch h.halted h.pc h.redirect h.pending, ?_⟩
  rw [h.fetch]
  exact hc.guides.congr h.decode h.pending h.redirect

theorem Spared.upcoming (h : c.Spared d) : d.upcoming = c.upcoming := by
  rw [Core.upcoming, h.redirect, h.fetch, h.pc]
  rfl

theorem Spared.proceeds (h : c.Spared d) : c.Proceeds d :=
  .stays h.pending (.inl h.decode) h.upcoming h.raised h.nextId

/-- What comes before it makes no difference. -/
theorem Spared.then (h : c.Spared r) (hd : r.Proceeds d) : c.Proceeds d := by
  cases hd with
  | stays h1 h2 h3 h4 h5 =>
    exact .stays (h1.trans h.pending) (h2.imp (·.trans h.decode) id) (h3.trans h.upcoming)
      (h4.trans h.raised) (h5.trans h.nextId)
  | resolves h1 h2 h3 h4 h5 h6 =>
    rw [h.decode] at h3
    exact .resolves (h.pending ▸ h1) h2 h3 h4 (h5.trans h.raised) (h6.trans h.nextId)
  | takes h1 h2 h3 h4 h5 =>
    rw [h.raised] at h4
    exact .takes (h.pending ▸ h1) h2 (h3.trans h.upcoming) h4 (h5.trans (congrArg (· + 1) h.nextId))
  | diverts h1 h2 h3 h4 h5 h6 => exact .diverts (h.raised ▸ h1) h2 h3 h4 h5 (h6.trans h.nextId)

theorem spared_countCycle (c : Core) : c.Spared c.countCycle :=
  ⟨rfl, rfl, rfl, rfl, rfl, rfl, rfl, rfl⟩

theorem spared_frozenCycle (c : Core) : c.Spared c.frozenCycle :=
  ⟨rfl, rfl, rfl, rfl, rfl, rfl, rfl, rfl⟩

theorem spared_fetchWait (c : Core) : c.Spared c.fetchWait :=
  ⟨rfl, rfl, rfl, rfl, rfl, rfl, rfl, rfl⟩

theorem spared_holdPhase (c : Core) (k : Hold) : c.Spared (c.holdPhase k) := by
  obtain ⟨_, -, -, e⟩ := holdPhase_shape c k
  rw [e]
  exact ⟨rfl, outline_forward _ _ _, rfl, rfl, rfl, rfl, rfl, rfl⟩

/-- The first half of a cycle leaves the front end alone, unless an access raises the first
exception. -/
theorem spared_retireHalf (h : c.flushes = false) : c.Spared c.retireHalf := by
  obtain ⟨-, hpc, hnextId, -⟩ := c.machine_retireHalf
  obtain ⟨hdecode, _, hcontrol⟩ := c.retireHalf_of_not_flushes h
  exact {
    fetch := c.fetch_retireHalf
    decode := congrArg outline hdecode
    pc := hpc
    nextId := hnextId
    pending := by rw [hcontrol]
    redirect := by rw [hcontrol]
    halted := by rw [hcontrol]
    raised := by rw [hcontrol] }

end Spared

section SecondHalf

/-- While fetch waits the branch or jump that waits in decode may be resolved. -/
theorem Guided.resolves (h : c.Guided) :
    c.resolvePhase.fetchWait.Guided ∧ c.Proceeds c.resolvePhase.fetchWait := by
  have hkept := fetch_resolvePhase c
  have hwait := spared_fetchWait c.resolvePhase
  refine ⟨hwait.guided ⟨h.fetching.resolvePhase, ?_⟩, ?_⟩
  · rw [hkept]
    exact h.guides.resolvePhase
  · rcases h.guides.resolves with hsame | ⟨hp, hafter, hout, hknown⟩
    · rw [hsame]
      exact (spared_fetchWait c).proceeds
    · have hspeculative := (h.guides.waiting hp).2.2.2.1
      have hf : c.pipeline.slots.fetch.isFetched = true := by simp [isFetched, hspeculative]
      obtain ⟨_, _, _, er⟩ := resolvePhase_shape c
      refine .resolves hp hafter hout (hwait.upcoming.trans ?_) (hwait.raised.trans ?_)
        (hwait.nextId.trans ?_)
      · rw [upcoming, hkept, if_pos hf]
        exact hknown
      · rw [er]
      · rw [er]

/-- The instruction in decode waits. -/
theorem Guided.held (h : c.Guided) (k : Hold) :
    (c.holdPhase k).resolvePhase.fetchWait.Guided ∧
      c.Proceeds (c.holdPhase k).resolvePhase.fetchWait := by
  have hheld := spared_holdPhase c k
  obtain ⟨hguided, hproceeds⟩ := (hheld.guided h).resolves
  exact ⟨hguided, hheld.then hproceeds⟩

/-- Decode waits for fetch. -/
theorem Guided.awaiting (h : c.Guided) (hk : c.hold? = none)
    (hr : c.pipeline.control.redirect = none) :
    c.executePhase.awaitFetch.fetchWait.Guided ∧
      c.Proceeds c.executePhase.awaitFetch.fetchWait := by
  have hp : c.pipeline.control.controlPending = false := (MidCycle.not_held hk).1
  exact ⟨⟨h.fetching.congr rfl rfl rfl rfl rfl, .of_none hp hr⟩,
    .stays rfl (.inr ⟨hp, rfl⟩) rfl rfl rfl⟩

/-- There is nothing to decode. -/
theorem Guided.vacant (hk : c.hold? = none) (hr : c.pipeline.control.redirect = none)
    (hi : c.pipeline.slots.fetch = .idle) :
    (c.executePhase.setDecode .idle).fetchPhase.Guided ∧
      c.Proceeds (c.executePhase.setDecode .idle).fetchPhase := by
  have hp : c.pipeline.control.controlPending = false := (MidCycle.not_held hk).1
  refine ⟨Guides.fetchPhase (.of_none hp hr), ?_⟩
  have hupcoming := upcoming_fetchPhase (c.executePhase.setDecode .idle)
  obtain ⟨_, _, _, _, e⟩ := fetchPhase_shape (c.executePhase.setDecode .idle)
  rw [e] at hupcoming ⊢
  refine .stays rfl (.inr ⟨hp, rfl⟩) (hupcoming.trans ?_) rfl rfl
  rw [upcoming, hi]
  rfl

/-- Fetch turns to the address it is steered to. -/
theorem Turned.proceeds {target : Word} (h : c.Turned target d)
    (hp : c.pipeline.control.controlPending = false)
    (hr : c.pipeline.control.redirect = some target) : c.Proceeds d := by
  refine .stays (h.pending.trans hp.symm) (.inr ⟨h.pending, ?_⟩) (h.upcoming.trans ?_) h.raised
    h.nextId
  · rw [h.decode]
    exact discard_not_live _
  · rw [Core.upcoming, hr]
    rfl

/-- What a legal word asks of fetch belongs to it. -/
theorem guides_takeLegal (hf : c.pipeline.slots.fetch.isFetched = true)
    (hpc : c.machine.pc = c.pipeline.slots.fetch.fallThrough) :
    c.takeLegal.Guides (c.takeLegal.pipeline.control.fetchHalted = false)
      c.takeLegal.machine.pc := by
  have hw := decodedWord_spec hf
  have hfall : c.machine.pc = c.decodedWord.fallThrough := by
    rw [hpc, fallThrough, fallThrough, hw.pc]
  refine ⟨?_, ?_⟩
  · intro hn
    have hn : c.decodedWord.needsOperands = true := hn
    exact ⟨hw.live, hn, turn?_of_fallThrough (nextPc_decodedWord hf (.inl hn)),
      halt_decodedWord hf hn, hfall⟩
  · intro target ht
    have ht : c.decodedWord.turn? = some target := ht
    unfold turn? at ht
    split at ht
    · cases ht
    next hturns =>
      cases ht
      refine ⟨?_, .control hw.live ?_ rfl hturns⟩
      · refine Bool.eq_false_iff.mpr fun hh => ?_
        exact hturns (nextPc_decodedWord hf (.inr hh))
      · refine Decidable.byContradiction fun hn => hturns ?_
        rw [(hw.decoded .idle).nextPc]
        split
        · rfl
        · exact successor_of_not_control (Bool.eq_false_iff.mpr hn)

/-- A word that is no instruction raises an exception. -/
theorem dispatch_illegal (c : Core) {i : Instruction} (hl : i.flags.legal = false) :
    c.dispatch i = c.raise := if_pos (by rw [hl]; rfl)

/-- What a word that is no instruction asks of fetch belongs to it. -/
theorem guides_raise {i : Instruction} (hlive : i.isLive = true) (hl : i.flags.legal = false)
    (hp : c.pipeline.control.controlPending = false) (hr : c.pipeline.control.redirect = none)
    (hh : c.pipeline.control.fetchHalted = false) :
    (c.raise.setDecode i).Guides ((c.raise.setDecode i).pipeline.control.fetchHalted = false)
      next := by
  cases hraised : c.pipeline.control.exceptionRaised with
  | false =>
    rw [raise_first c hraised]
    refine ⟨fun hp' => absurd (hp.symm.trans hp') (by decide), fun target ht => ⟨hh, ?_⟩⟩
    cases ht
    exact .illegal hlive hl rfl
  | true =>
    rw [raise_again c hraised]
    exact .of_none hp hr

/-- Behind a legal word comes its successor, as far as it is known. -/
theorem upcoming_takeLegal (hf : c.pipeline.slots.fetch.isFetched = true)
    (hpc : c.machine.pc = c.pipeline.slots.fetch.fallThrough) :
    c.takeLegal.resolvePhase.fetchPhase.upcoming =
      c.takeLegal.resolvePhase.pipeline.slots.decode.nextPc := by
  rw [upcoming_fetchPhase, machine_resolvePhase]
  rcases (guides_takeLegal hf hpc).resolves with hsame | ⟨-, -, -, hknown⟩
  · rw [hsame]
    show c.decodedWord.turn?.getD c.machine.pc = c.decodedWord.nextPc
    unfold turn?
    split
    next hnext =>
      rw [hnext, Option.getD_none, hpc, fallThrough, fallThrough, (decodedWord_spec hf).pc]
    next => rfl
  · exact hknown

/-- Decode takes over the fetched word. -/
theorem Guided.taking (h : c.Guided) (hk : c.hold? = none)
    (hr : c.pipeline.control.redirect = none) (hs : c.pipeline.control.fetchStall = 0)
    (hf : c.pipeline.slots.fetch.isFetched = true) :
    c.executePhase.decodePhase.resolvePhase.fetchPhase.Guided ∧
      c.Proceeds c.executePhase.decodePhase.resolvePhase.fetchPhase := by
  have hp : c.pipeline.control.controlPending = false := (MidCycle.not_held hk).1
  obtain ⟨hh, hpc⟩ := h.fetching.of_fetched hf
  have hw := decodedWord_spec hf
  have ed := decodePhase_of_fetched (c := c.executePhase) hr hs hf
  have hd := decoding_of_taking ed
  have hlegal : c.executePhase.decodedWord.flags.legal = true →
      c.executePhase.decodePhase = c.executePhase.takeLegal :=
    decodePhase_of_legal hr hs hf hp hh
  have hguides : c.executePhase.decodePhase.Guides
      (c.executePhase.decodePhase.pipeline.control.fetchHalted = false)
      c.executePhase.decodePhase.machine.pc := by
    cases hl : c.executePhase.decodedWord.flags.legal with
    | true =>
      rw [hlegal hl]
      exact guides_takeLegal hf hpc
    | false =>
      rw [ed, dispatch_illegal _ hl]
      exact guides_raise hw.live hl hp hr hh
  obtain ⟨hnextId, -, hdecode, -⟩ := fetchPhase_fields c.executePhase.decodePhase.resolvePhase
  refine ⟨Guides.fetchPhase ?_, .takes hp ?_ ?_ ?_ (hnextId.trans hd.nextId)⟩
  · have hresolved := hguides.resolvePhase
    obtain ⟨_, _, _, er⟩ := resolvePhase_shape c.executePhase.decodePhase
    rw [er] at hresolved ⊢
    exact hresolved
  · rw [hdecode]
    exact (congrArg (fun o => o.isLive) hd.decode).trans hw.live
  · rw [hdecode, upcoming, hr, if_pos hf]
    exact (congrArg (fun o => o.pc) hd.decode).trans hw.pc
  · rw [hdecode]
    intro hl
    have e := hlegal ((congrArg (fun o => o.flags.legal) hd.decode).symm.trans hl)
    rw [e]
    refine ⟨?_, upcoming_takeLegal hf hpc⟩
    obtain ⟨_, _, _, _, ef⟩ := fetchPhase_shape c.executePhase.takeLegal.resolvePhase
    obtain ⟨_, _, _, er⟩ := resolvePhase_shape c.executePhase.takeLegal
    rw [ef, er]
    rfl

/-- The second half of a cycle. -/
theorem Guided.issueHalf (h : c.Guided) : c.issueHalf.Guided ∧ c.Proceeds c.issueHalf := by
  cases c.course h.fetching.slot with
  | held k _ e =>
    rw [e]
    exact h.held k
  | awaiting hk hr _ e =>
    rw [e]
    exact h.awaiting hk hr
  | turning target hk hr e =>
    have ht := turned hk target
    rw [e]
    exact ⟨ht.guided, ht.proceeds (MidCycle.not_held hk).1 hr⟩
  | vacant hk hr _ hi e =>
    rw [e]
    exact Guided.vacant hk hr hi
  | taking hk hr hs hf _ e =>
    rw [e]
    exact h.taking hk hr hs hf

/-- What steers fetch makes it turn, if nothing holds decode up. -/
theorem turned_issueHalf {target : Word}
    (hslot : c.pipeline.slots.fetch.isFetched = true ∨ c.pipeline.slots.fetch = .idle)
    (hk : c.hold? = none) (hr : c.pipeline.control.redirect = some target) :
    c.Turned target c.issueHalf := by
  cases c.course hslot with
  | held k hk' => exact absurd (hk.symm.trans hk') (Option.some_ne_none k).symm
  | turning target' _ hr' e =>
    cases hr.symm.trans hr'
    rw [e]
    exact turned hk target
  | awaiting _ hr' => exact absurd (hr'.symm.trans hr) (Option.some_ne_none target).symm
  | vacant _ hr' => exact absurd (hr'.symm.trans hr) (Option.some_ne_none target).symm
  | taking _ hr' => exact absurd (hr'.symm.trans hr) (Option.some_ne_none target).symm

end SecondHalf

section Cycle

/-- An access that raises the first exception makes fetch turn to the handler. -/
theorem turned_of_flushes (h : c.Guided) (hx : c.flushes = true) :
    c.retireHalf.Turned exceptionHandler c.movingCycle ∧
      c.pipeline.control.exceptionRaised = false ∧
      c.movingCycle.pipeline.control.exceptionRaised = true := by
  obtain ⟨hcontrol, -, hfree⟩ := c.retireHalf_of_flushes hx
  have hslot := h.fetching.slot
  rw [← fetch_retireHalf c] at hslot
  have ht : c.retireHalf.Turned exceptionHandler c.movingCycle :=
    turned_issueHalf hslot hfree (by rw [hcontrol])
  refine ⟨ht, ?_, ?_⟩
  · simpa using (Bool.and_eq_true_iff.mp hx).2
  · rw [ht.raised, hcontrol]

theorem Guided.movingCycle (h : c.Guided) : c.movingCycle.Guided ∧ c.Proceeds c.movingCycle := by
  cases hx : c.flushes with
  | false =>
    have hs := spared_retireHalf hx
    obtain ⟨hguided, hproceeds⟩ := (hs.guided h).issueHalf
    exact ⟨hguided, hs.then hproceeds⟩
  | true =>
    obtain ⟨ht, hbefore, hafter⟩ := turned_of_flushes h hx
    obtain ⟨-, -, hnextId, -⟩ := c.machine_retireHalf
    refine ⟨ht.guided, .diverts hbefore hafter ht.pending ?_ ht.upcoming
      (ht.nextId.trans hnextId)⟩
    rw [ht.decode]
    exact discard_not_live _

/-- Every cycle of a run that goes on does one of the four things. -/
theorem Guided.proceeds (h : c.Guided) (hrun : c.pipeline.status.isTerminal = false) :
    c.Proceeds c.tick := by
  have hcount := spared_countCycle c
  rcases frozen_or_moves hrun with hz | hm
  · rw [tick_eq_of_frozen hz]
    exact hcount.then (spared_frozenCycle _).proceeds
  · rw [tick_eq_of_moves hm]
    exact hcount.then (hcount.guided h).movingCycle.2

/-- Fetch and decode agree after every cycle, whatever it has raised. -/
theorem Guided.tick (h : c.Guided) : c.tick.Guided := by
  have hcount := (spared_countCycle c).guided h
  cases hrun : c.pipeline.status.isTerminal with
  | true =>
    rw [tick_of_terminal hrun]
    exact h
  | false =>
    rcases frozen_or_moves hrun with hz | hm
    · rw [tick_eq_of_frozen hz]
      exact (spared_frozenCycle _).guided hcount
    · rw [tick_eq_of_moves hm]
      exact hcount.movingCycle.1

theorem guided_core (m : Machine) : m.core.Guided :=
  ⟨.starting rfl rfl rfl rfl, .of_none rfl rfl⟩

theorem Guided.run (h : c.Guided) (n : Nat) : (runTicks n c).Guided := by
  induction n with
  | zero => exact h
  | succ n ih =>
    rw [runTicks_one_more]
    exact ih.tick

end Cycle

section Turning

/-- Nothing holds up what steers fetch: a branch or jump whose target is known has its operands, and
a word that is no instruction needs none. -/
theorem Guides.not_held (h : c.Guides heeded next) {target : Word}
    (hr : c.pipeline.control.redirect = some target)
    (hlegal : c.hold?.isSome = true → c.pipeline.slots.decode.flags.legal = true) :
    c.hold? = none := by
  have hp : c.pipeline.control.controlPending = false := by
    refine Bool.eq_false_iff.mpr fun hp => ?_
    exact absurd ((h.waiting hp).2.2.1.symm.trans hr) (Option.some_ne_none target).symm
  cases (h.steered target hr).2 with
  | control _ hcontrol => simp [hold?, hp, loadUseHazard, hcontrol]
  | illegal _ hl =>
    cases hk : c.hold? with
    | none => rfl
    | some k =>
      rw [hk] at hlegal
      exact absurd (hl.symm.trans (hlegal rfl)) (by decide)

/-- A pending redirect is over with the next cycle that moves, which throws away what fetch holds.
Only the first exception makes fetch turn to another address. -/
theorem Guided.turns (h : c.Guided) (hsealed : c.Sealed) (hm : c.moves = true) {target : Word}
    (hr : c.pipeline.control.redirect = some target) :
    c.tick.pipeline.control.redirect = none ∧
      c.tick.pipeline.slots.decode = c.pipeline.slots.fetch.squash ∧
      c.tick.pipeline.slots.fetch.pc =
        if c.tick.pipeline.control.exceptionRaised = c.pipeline.control.exceptionRaised then target
        else exceptionHandler := by
  have hcount := (spared_countCycle c).guided h
  have hfetched : c.pipeline.slots.fetch.isFetched = true := by
    have hspeculative := (h.guides.steered target hr).1
    simp [isFetched, hspeculative]
  have hsquash : discard c.pipeline.slots.fetch = c.pipeline.slots.fetch.squash := if_pos hfetched
  rw [tick_eq_of_moves hm]
  cases hx : c.countCycle.flushes with
  | false =>
    have hs := spared_retireHalf hx
    have hguided := hs.guided hcount
    have hr' := hs.redirect.trans hr
    have ht := turned_issueHalf hguided.fetching.slot
      (hguided.guides.not_held hr' hsealed.countCycle.legal_of_hold) hr'
    refine ⟨ht.redirect, ?_, ?_⟩
    · rw [ht.decode, hs.fetch]
      exact hsquash
    · rw [ht.fetch, ht.raised, hs.raised]
      exact (if_pos rfl).symm
  | true =>
    obtain ⟨ht, hbefore, hafter⟩ := turned_of_flushes hcount hx
    refine ⟨ht.redirect, ?_, ?_⟩
    · refine ht.decode.trans ?_
      rw [fetch_retireHalf]
      exact hsquash
    · refine ht.fetch.trans (if_neg fun heq => ?_).symm
      exact absurd (hbefore.symm.trans (heq.symm.trans hafter)) (by decide)

/-- Throwing away a slot of fetch leaves something squashed in decode only if fetch held a word. -/
theorem discard_of_squashed {i : Instruction} (hslot : i.isFetched = true ∨ i = .idle)
    (hq : (discard i).status = .squashed) : discard i = i.squash := by
  rcases hslot with hf | rfl
  · exact if_pos hf
  · cases hq

/-- What comes into decode squashed has been thrown away by a fetch that turned. -/
theorem Guided.turned_of_squashed (h : c.Guided)
    (hq : c.issueHalf.pipeline.slots.decode.status = .squashed) :
    ∃ target, c.pipeline.control.redirect = some target ∧ c.Turned target c.issueHalf := by
  have dead : c.issueHalf.pipeline.slots.decode.isLive = false := by rw [isLive, hq]; rfl
  cases c.course h.fetching.slot with
  | held k hk e =>
    have ho := congrArg (fun o => o.isLive) (spared_holdPhase c k).decode
    have hlive := ho.trans (live_of_hold hk fun hp => (h.guides.waiting hp).1)
    rw [e] at dead
    exact absurd (dead.symm.trans ((isLive_decode_resolvePhase _).trans hlive)) (by decide)
  | awaiting _ _ _ e =>
    rw [e] at hq
    cases hq
  | turning target hk hr => exact ⟨target, hr, turned_issueHalf h.fetching.slot hk hr⟩
  | vacant _ _ _ _ e =>
    rw [e, decode_fetchPhase] at hq
    cases hq
  | taking _ _ _ hf ed e =>
    have hlive := (congrArg (fun o => o.isLive) (decoding_of_taking ed).decode).trans
      (decodedWord_spec hf).live
    rw [e, decode_fetchPhase] at dead
    exact absurd (dead.symm.trans hlive) (by decide)

/-- What a cycle that moves throws away in fetch was speculative, unless an access has raised the
first exception. -/
theorem Guided.speculative_of_squashed (h : c.Guided) (hm : c.moves = true)
    (hq : c.tick.pipeline.slots.decode.status = .squashed) :
    c.tick.pipeline.slots.decode = c.pipeline.slots.fetch.squash ∧
      (c.pipeline.slots.fetch.status = .speculative ∨
        c.pipeline.control.exceptionRaised = false ∧
          c.tick.pipeline.control.exceptionRaised = true ∧
          c.tick.pipeline.slots.memory.memFault = true) := by
  have hcount := (spared_countCycle c).guided h
  rw [tick_eq_of_moves hm] at hq ⊢
  cases hx : c.countCycle.flushes with
  | false =>
    have hs := spared_retireHalf hx
    obtain ⟨target, hr, ht⟩ := (hs.guided hcount).turned_of_squashed hq
    rw [ht.decode, hs.fetch] at hq ⊢
    exact ⟨discard_of_squashed h.fetching.slot hq,
      .inl (h.guides.steered target (hs.redirect.symm.trans hr)).1⟩
  | true =>
    obtain ⟨ht, hbefore, hafter⟩ := turned_of_flushes hcount hx
    have hdecode := ht.decode
    rw [fetch_retireHalf] at hdecode
    refine ⟨hdecode.trans (discard_of_squashed h.fetching.slot (hdecode ▸ hq)),
      .inr ⟨hbefore, hafter, ?_⟩⟩
    exact (memFault_movingCycle _).trans (Bool.and_eq_true_iff.mp hx).1

end Turning

end Core

end FiveStage
