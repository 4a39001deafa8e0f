import FiveStage.Proofs.LastInFlight

/-! # How many exceptions a run counts

The first exception of a run is taken, and a second one ends the run with the cycle that raises it.
A cycle can raise two exceptions, one for a failing access and one for an illegal word, and the
stages behind an access that ends the run still work: an illegal word that is decoded in the same
cycle is counted too (`Core.Moves`). Whatever the program does, the count of a run tells how it has
ended (`exceptions_counted`). -/

namespace FiveStage

open Instruction

/-- A live word that is no instruction, which raises an exception when it is decoded. -/
def Instruction.isIllegal (i : Instruction) : Bool := i.isLive && !i.flags.legal

namespace Core

/-- What a part of a cycle does that raises an exception, or none. -/
structure Tally (c d : Core) (raises : Bool) : Prop where
  exceptions : d.machine.counters.exceptions = c.machine.counters.exceptions + raises.toNat
  raised : d.pipeline.control.exceptionRaised = (c.pipeline.control.exceptionRaised || raises)
  status : d.pipeline.status =
    if raises && c.pipeline.control.exceptionRaised then .exception else c.pipeline.status

/-- How far a run has come, by the exceptions that it has raised. -/
inductive Standing (c : Core) : Prop
  /-- it goes on, behind one exception at most -/
  | running (status : c.pipeline.status = .success)
      (exceptions : c.machine.counters.exceptions = c.pipeline.control.exceptionRaised.toNat)
  /-- the halt word has retired -/
  | halted (retired : c.pipeline.slots.writeback.ends = true)
      (status : c.pipeline.status =
        if c.pipeline.control.exceptionRaised then .exception else .halt)
      (exceptions : c.machine.counters.exceptions = c.pipeline.control.exceptionRaised.toNat)
  /-- behind the first exception an access has failed or an illegal word was decoded, or both -/
  | aborted (retired : c.pipeline.slots.writeback.ends = false)
      (status : c.pipeline.status = .exception)
      (raised : c.pipeline.control.exceptionRaised = true)
      (again : c.pipeline.slots.memory.memFault = true ∨ c.pipeline.slots.decode.isIllegal = true)
      (exceptions : c.machine.counters.exceptions =
        1 + c.pipeline.slots.memory.memFault.toNat + c.pipeline.slots.decode.isIllegal.toNat)

variable {c d e : Core}

section Phases

theorem Tally.none (hx : d.machine.counters.exceptions = c.machine.counters.exceptions)
    (hr : d.pipeline.control.exceptionRaised = c.pipeline.control.exceptionRaised)
    (hs : d.pipeline.status = c.pipeline.status) : c.Tally d false :=
  ⟨hx, by rw [hr, Bool.or_false], hs⟩

theorem tally_raise (c : Core) : c.Tally c.raise true := by
  cases h : c.pipeline.control.exceptionRaised with
  | false =>
    rw [raise_first c h]
    exact ⟨rfl, by rw [h]; rfl, by rw [h]; rfl⟩
  | true =>
    rw [raise_again c h]
    exact ⟨rfl, by rw [h]; rfl, by rw [h]; rfl⟩

/-- What comes behind and raises nothing does not change the tally. -/
theorem Tally.then {b : Bool} (h : c.Tally d b) (h' : d.Tally e false) : c.Tally e b := by
  refine ⟨h'.exceptions.trans h.exceptions, ?_, h'.status.trans h.status⟩
  rw [h'.raised, h.raised, Bool.or_false]

theorem Tally.behind {b : Bool} (h : c.Tally d false) (h' : d.Tally e b) : c.Tally e b := by
  have hr : d.pipeline.control.exceptionRaised = c.pipeline.control.exceptionRaised :=
    h.raised.trans (Bool.or_false _)
  have hs : d.pipeline.status = c.pipeline.status := h.status
  exact ⟨h'.exceptions.trans (congrArg (· + _) h.exceptions), hr ▸ h'.raised, hr ▸ hs ▸ h'.status⟩

theorem tally_resolvePhase (c : Core) : c.Tally c.resolvePhase false := by
  obtain ⟨_, _, _, e⟩ := resolvePhase_shape c
  rw [e]
  exact .none rfl rfl rfl

theorem tally_fetchPhase (c : Core) : c.Tally c.fetchPhase false := by
  obtain ⟨_, _, _, _, e⟩ := fetchPhase_shape c
  rw [e]
  exact .none rfl rfl rfl

/-- The first half of a cycle raises an exception if its access fails. -/
theorem tally_retireHalf (c : Core) : c.writebackPhase.Tally c.retireHalf c.faults := by
  have haccess : c.writebackPhase.Tally c.writebackPhase.accessPhase false :=
    .none (congrArg Counters.exceptions (counters_memoryStage _ _)) rfl rfl
  rcases c.retireHalf_cases with ⟨hf, e⟩ | ⟨hf, -, e⟩ | ⟨hf, -, e⟩
  · rw [e, hf]
    exact haccess
  · rw [e, hf]
    exact haccess.behind (tally_raise _)
  · rw [e, hf]
    refine (haccess.behind (tally_raise _)).then (.none (exceptions_countSquash _ _) ?_ ?_)
    · rw [pipeline_flushDecode]
    · rw [pipeline_flushDecode]

/-- A freshly decoded word raises an exception if it is no instruction. -/
theorem tally_dispatch (c : Core) (i : Instruction) : c.Tally (c.dispatch i) (!i.flags.legal) := by
  unfold dispatch
  cases hl : i.flags.legal with
  | false => exact tally_raise c
  | true =>
    rw [if_neg (by simp)]
    (repeat' split) <;> exact .none rfl rfl rfl

theorem isIllegal_resolvePhase (c : Core) :
    c.resolvePhase.pipeline.slots.decode.isIllegal = c.pipeline.slots.decode.isIllegal := by
  rcases c.resolvePhase_cases with e | ⟨-, i, ho, e⟩
  · rw [e]
  · rw [e]
    exact congrArg (fun o => o.isIllegal) ho

theorem decode_fetchPhase (c : Core) :
    c.fetchPhase.pipeline.slots.decode = c.pipeline.slots.decode := by
  obtain ⟨_, _, _, _, e⟩ := fetchPhase_shape c
  rw [e]

theorem isIllegal_of_not_live {i : Instruction} (h : i.isLive = false) : i.isIllegal = false := by
  rw [isIllegal, h, Bool.false_and]

/-- Decode has taken over a word, which raises an exception if it is no instruction. -/
theorem tally_taken (c : Core) {i : Instruction} (hl : i.isLive = true) :
    c.Tally ((c.dispatch i).setDecode i).resolvePhase.fetchPhase
      ((c.dispatch i).setDecode i).resolvePhase.fetchPhase.pipeline.slots.decode.isIllegal := by
  have hi : ((c.dispatch i).setDecode i).resolvePhase.fetchPhase.pipeline.slots.decode.isIllegal =
      !i.flags.legal := by
    rw [decode_fetchPhase, isIllegal_resolvePhase]
    show i.isIllegal = _
    rw [isIllegal, hl, Bool.true_and]
  rw [hi]
  have hset : (c.dispatch i).Tally ((c.dispatch i).setDecode i) false := .none rfl rfl rfl
  exact (((tally_dispatch c i).then hset).then (tally_resolvePhase _)).then (tally_fetchPhase _)

/-- The second half of a cycle raises an exception if it leaves an illegal word in decode, which
fetch has held and nothing has thrown away. -/
theorem tally_issueHalf
    (hslot : c.pipeline.slots.fetch.isFetched = true ∨ c.pipeline.slots.fetch = .idle)
    (hheld : c.hold?.isSome = true → c.pipeline.slots.decode.flags.legal = true) :
    c.Tally c.issueHalf c.issueHalf.pipeline.slots.decode.isIllegal ∧
      (c.issueHalf.pipeline.slots.decode.isIllegal = true →
        c.pipeline.control.redirect = none ∧ c.pipeline.slots.fetch.isFetched = true) := by
  cases c.course hslot with
  | held k hk e =>
    obtain ⟨_, -, hx, es⟩ := holdPhase_shape c k
    have hd : (c.holdPhase k).pipeline.slots.decode.isIllegal = false := by
      rw [es, forward_shape]
      show (_ && !c.pipeline.slots.decode.flags.legal) = false
      rw [hheld (by rw [hk]; rfl), Bool.not_true, Bool.and_false]
    have hb : (c.holdPhase k).resolvePhase.fetchWait.pipeline.slots.decode.isIllegal = false :=
      (isIllegal_resolvePhase _).trans hd
    have hhold : c.Tally (c.holdPhase k) false := by
      rw [es]
      exact .none hx rfl rfl
    rw [e, hb]
    exact ⟨(hhold.then (tally_resolvePhase _)).then (.none rfl rfl rfl), nofun⟩
  | awaiting _ _ _ e =>
    rw [e]
    exact ⟨.none rfl rfl rfl, nofun⟩
  | turning target _ _ e =>
    rw [e, decode_fetchPhase, redirectPhase_eq, isIllegal_of_not_live (discard_not_live _)]
    refine ⟨Tally.then ?_ (tally_fetchPhase _), nofun⟩
    exact .none rfl rfl rfl
  | vacant _ _ _ _ e =>
    rw [e, decode_fetchPhase]
    refine ⟨Tally.then ?_ (tally_fetchPhase _), nofun⟩
    exact .none rfl rfl rfl
  | taking _ hr _ hi ed e =>
    rw [e, ed]
    refine ⟨Tally.behind ?_ (tally_taken _ (decodedWord_spec hi).live), fun _ => ⟨hr, hi⟩⟩
    exact .none rfl rfl rfl

end Phases

section Cycle

/-- An illegal word reads nothing, so that nothing holds it up in decode. -/
theorem legal_of_hold {k : Hold} (hk : c.hold? = some k)
    (hw : c.pipeline.slots.decode.isLive = true →
      ∃ w : InstWord, c.pipeline.slots.decode.flags = w.flags)
    (hp : c.pipeline.control.controlPending = true →
      c.pipeline.slots.decode.flags.legal = true) :
    c.pipeline.slots.decode.flags.legal = true := by
  unfold hold? at hk
  split at hk
  next hpending => exact hp hpending
  next =>
    split at hk
    next hz =>
      simp only [loadUseHazard, Bool.and_eq_true] at hz
      obtain ⟨⟨⟨hlive, -⟩, -⟩, hreads⟩ := hz
      refine Decidable.byContradiction fun hl => ?_
      have hflags : c.pipeline.slots.decode.flags = {} := by
        obtain ⟨w, hw⟩ := hw hlive
        rw [hw] at hl ⊢
        exact InstWord.flags_illegal (Bool.eq_false_iff.mpr hl)
      split at hreads
      · simp [isStore, reads, hflags] at hreads
      · cases hreads
    next => cases hk

/-- What waits in decode in the second half of a cycle is an instruction. -/
theorem Sealed.legal_of_hold (h : c.Sealed) (hk : c.retireHalf.hold?.isSome = true) :
    c.retireHalf.pipeline.slots.decode.flags.legal = true := by
  cases hx : c.flushes with
  | true =>
    rw [(c.retireHalf_of_flushes hx).2.2] at hk
    cases hk
  | false =>
    obtain ⟨k, hk⟩ := Option.isSome_iff_exists.mp hk
    obtain ⟨hd, _, hcontrol⟩ := c.retireHalf_of_not_flushes hx
    refine Core.legal_of_hold hk ?_ ?_
    · rw [hd]
      exact fun hl => h.words _ (mem_flagged (by simp) hl)
    · rw [hd, hcontrol]
      exact h.waiting

/-- What is about to retire and ends the run is the last to do anything: no access fails in the
cycle in which it retires, and no word is decoded. -/
theorem Sealed.quiet (h : c.Sealed) (hclean : c.pipeline.slots.execute.memFault = false)
    (hm : c.pipeline.slots.memory.ends = true) :
    c.faults = false ∧ c.retireHalf.pipeline.slots.fetch.isFetched = false := by
  obtain ⟨hexecute, -, hrest⟩ := h.alone hm
  refine ⟨Bool.eq_false_iff.mpr fun hf => ?_, ?_⟩
  · have hlive := (access_of_faults hf hclean).1
    exact absurd (hexecute.symm.trans hlive) (by decide)
  · rw [fetch_retireHalf, hrest.slot]
    rfl

/-- The memory slot shows whether the access of the cycle has failed. -/
theorem memFault_movingCycle (c : Core) :
    c.movingCycle.pipeline.slots.memory.memFault = c.faults := by
  rw [movingCycle, (issueHalf_slots _).2, slots_retireHalf]
  rfl

/-- What a moving cycle raises: an exception for an access that fails, and one for an illegal word
that is decoded. -/
structure Moves (c d : Core) : Prop where
  exceptions : d.machine.counters.exceptions = c.machine.counters.exceptions
    + d.pipeline.slots.memory.memFault.toNat + d.pipeline.slots.decode.isIllegal.toNat
  raised : d.pipeline.control.exceptionRaised =
    (c.pipeline.control.exceptionRaised || d.pipeline.slots.memory.memFault
      || d.pipeline.slots.decode.isIllegal)
  status : d.pipeline.status =
    if d.pipeline.slots.memory.memFault && c.pipeline.control.exceptionRaised ||
        d.pipeline.slots.decode.isIllegal &&
          (c.pipeline.control.exceptionRaised || d.pipeline.slots.memory.memFault) then .exception
    else c.statusAfter c.pipeline.slots.memory
  retired : d.pipeline.slots.writeback = c.pipeline.slots.memory
  /-- the first exception keeps an illegal word behind it from being decoded -/
  first : c.pipeline.control.exceptionRaised = false → d.pipeline.slots.memory.memFault = true →
    d.pipeline.slots.decode.isIllegal = false
  /-- nothing is behind the halt word -/
  last : c.pipeline.slots.memory.ends = true →
    d.pipeline.slots.memory.memFault = false ∧ d.pipeline.slots.decode.isIllegal = false

theorem Sealed.moves {icache dcache : Geometry} (h : c.Sealed) (hc : c.Coherent icache dcache) :
    c.Moves c.movingCycle := by
  have hslot : c.retireHalf.pipeline.slots.fetch.isFetched = true ∨
      c.retireHalf.pipeline.slots.fetch = .idle := by
    rw [fetch_retireHalf]
    exact hc.slot
  have hfirst := c.tally_retireHalf
  obtain ⟨hsecond, htaken⟩ := c.retireHalf.tally_issueHalf hslot h.legal_of_hold
  obtain ⟨hwriteback, -⟩ := issueHalf_slots c.retireHalf
  have hfault := memFault_movingCycle c
  rw [show c.retireHalf.issueHalf = c.movingCycle from rfl] at hsecond htaken hwriteback
  exact {
    exceptions := by
      rw [hsecond.exceptions, hfirst.exceptions, hfault]
      exact congrArg (· + _ + _) (exceptions_writebackStage _ _)
    raised := by
      rw [hsecond.raised, hfirst.raised, hfault]
      rfl
    status := by
      rw [hsecond.status, hfirst.raised, hfirst.status, hfault]
      change (if _ && (c.pipeline.control.exceptionRaised || c.faults) then RunStatus.exception else
        if c.faults && c.pipeline.control.exceptionRaised then RunStatus.exception
        else c.statusAfter c.pipeline.slots.memory) = _
      cases c.faults <;> cases c.pipeline.control.exceptionRaised <;>
        cases c.movingCycle.pipeline.slots.decode.isIllegal <;> rfl
    retired := by
      rw [hwriteback, slots_retireHalf]
    first := by
      rw [hfault]
      intro hr hf
      refine Bool.eq_false_iff.mpr fun hb => ?_
      have hx : c.flushes = true := Bool.and_eq_true_iff.mpr ⟨hf, by rw [hr]; rfl⟩
      have hredirect := (htaken hb).1
      rw [(c.retireHalf_of_flushes hx).1] at hredirect
      cases hredirect
    last := by
      rw [hfault]
      intro hm
      obtain ⟨hf, hidle⟩ := h.quiet hc.executeClean hm
      refine ⟨hf, Bool.eq_false_iff.mpr fun hb => ?_⟩
      exact absurd (hidle.symm.trans (htaken hb).2) (by decide) }

/-- Where a moving cycle takes the run. -/
theorem Moves.standing (h : c.Moves d) (hs : c.pipeline.status = .success)
    (hx : c.machine.counters.exceptions = c.pipeline.control.exceptionRaised.toNat) :
    d.Standing := by
  have hexceptions := h.exceptions
  have hraised := h.raised
  have hstatus := h.status
  have hafter : c.statusAfter c.pipeline.slots.memory =
      if c.pipeline.slots.memory.ends then
        if c.pipeline.control.exceptionRaised then .exception else .halt
      else .success := by rw [← hs]; rfl
  rw [hx] at hexceptions
  rw [hafter] at hstatus
  cases hm : c.pipeline.slots.memory.ends with
  | true =>
    obtain ⟨hf, hb⟩ := h.last hm
    simp only [hf, hb, hm, Bool.toNat_false, Nat.add_zero, Bool.or_false, Bool.false_and,
      Bool.false_eq_true, if_false, if_true] at hexceptions hraised hstatus
    exact .halted (h.retired ▸ hm) (hraised ▸ hstatus) (hraised ▸ hexceptions)
  | false =>
    simp only [hm, Bool.false_eq_true, if_false] at hstatus
    cases hr : c.pipeline.control.exceptionRaised with
    | false =>
      have hfirst := h.first hr
      rw [hr] at hexceptions hraised hstatus
      refine .running (hstatus.trans ?_) (hexceptions.trans ?_)
      · cases hf : d.pipeline.slots.memory.memFault with
        | false => simp
        | true => simp [hfirst hf]
      · rw [hraised]
        cases hf : d.pipeline.slots.memory.memFault with
        | false => simp
        | true => simp [hfirst hf]
    | true =>
      rw [hr] at hexceptions hraised hstatus
      rw [Bool.and_true, Bool.true_or, Bool.and_true] at hstatus
      cases hagain : (d.pipeline.slots.memory.memFault || d.pipeline.slots.decode.isIllegal) with
      | false =>
        obtain ⟨hf, hb⟩ := Bool.or_eq_false_iff.mp hagain
        rw [hagain, if_neg (by decide)] at hstatus
        rw [hf, hb] at hexceptions hraised
        exact .running hstatus (hraised ▸ hexceptions)
      | true =>
        rw [hagain, if_pos rfl] at hstatus
        rw [Bool.true_or, Bool.true_or] at hraised
        have hagain := (Bool.or_eq_true _ _).mp hagain
        exact .aborted (h.retired ▸ hm) hstatus hraised hagain hexceptions

theorem Standing.tick {icache dcache : Geometry} (h : c.Standing)
    (hkeeps : c.pipeline.status.isTerminal = false → c.Coherent icache dcache ∧ c.Sealed) :
    c.tick.Standing := by
  cases ht : c.pipeline.status.isTerminal with
  | true =>
    rw [tick_of_terminal ht]
    exact h
  | false =>
    have hs := RunStatus.eq_success ht
    have hx : c.machine.counters.exceptions = c.pipeline.control.exceptionRaised.toNat := by
      cases h with
      | running _ hx => exact hx
      | halted _ _ hx => exact hx
      | aborted _ hend => rw [hend] at hs; cases hs
    obtain ⟨hc, hsealed⟩ := hkeeps ht
    rcases Nat.eq_zero_or_pos c.pipeline.control.memStall with hm | hm
    · have hcount : c.countCycle.Coherent icache dcache := { hc with }
      rw [tick_of_moving hs hm]
      exact (hsealed.countCycle.moves hcount).standing hs hx
    · rw [tick_of_frozen hs hm]
      exact .running hs hx

end Cycle

section Run

theorem standing_run {m : Machine} (h : m.counters.exceptions = 0) (n : Nat) :
    (runTicks n m.core).Standing := by
  induction n with
  | zero => exact .running rfl h
  | succ n ih =>
    rw [runTicks_one_more]
    have hc := coherent_core m
    exact ih.tick fun hrun => ⟨hc.run n hrun, (sealed_core m).run hc n hrun⟩

/-- What the number of exceptions tells of a run. -/
structure Counted (c : Core) : Prop where
  none : c.machine.counters.exceptions = 0 ↔ c.pipeline.control.exceptionRaised = false
  again : 2 ≤ c.machine.counters.exceptions ↔
    c.pipeline.status = .exception ∧ c.pipeline.slots.writeback.ends = false
  handled : c.pipeline.status = .exception → c.pipeline.slots.writeback.ends = true →
    c.machine.counters.exceptions = 1
  halted : c.pipeline.status = .halt → c.machine.counters.exceptions = 0
  atMost : c.machine.counters.exceptions ≤ 3
  third : c.machine.counters.exceptions = 3 ↔
    c.pipeline.status = .exception ∧ c.pipeline.slots.writeback.ends = false ∧
      c.pipeline.slots.memory.memFault = true ∧ c.pipeline.slots.decode.isIllegal = true

/-- A run that no second exception has ended. -/
theorem Counted.of_first
    (hx : c.machine.counters.exceptions = c.pipeline.control.exceptionRaised.toNat)
    (hexception : c.pipeline.status = .exception →
      c.pipeline.slots.writeback.ends = true ∧ c.pipeline.control.exceptionRaised = true)
    (hhalt : c.pipeline.status = .halt → c.pipeline.control.exceptionRaised = false) :
    c.Counted := by
  have hle : c.machine.counters.exceptions ≤ 1 := hx ▸ Bool.toNat_le _
  have hnever : ¬ (c.pipeline.status = .exception ∧ c.pipeline.slots.writeback.ends = false) :=
    fun ⟨hs, hends⟩ => absurd (hends.symm.trans (hexception hs).1) (by decide)
  exact {
    none := by rw [hx]; exact Bool.toNat_eq_zero
    again := ⟨fun h => absurd (Nat.le_trans h hle) (by decide), fun h => absurd h hnever⟩
    handled := fun hs _ => by rw [hx, (hexception hs).2]; rfl
    halted := fun hs => by rw [hx, hhalt hs]; rfl
    atMost := Nat.le_trans hle (by decide)
    third := ⟨fun h => absurd (h ▸ hle) (by decide), fun h => absurd ⟨h.1, h.2.1⟩ hnever⟩ }

theorem Standing.counted (h : c.Standing) : c.Counted := by
  cases h with
  | running hs hx =>
    refine .of_first hx (fun hend => ?_) fun hend => ?_
    · exact absurd (hs.symm.trans hend) (by decide)
    · exact absurd (hs.symm.trans hend) (by decide)
  | halted hends hs hx =>
    refine .of_first hx (fun hend => ⟨hends, ?_⟩) fun hend => ?_
    · cases hr : c.pipeline.control.exceptionRaised with
      | false => rw [hs, hr] at hend; cases hend
      | true => rfl
    · cases hr : c.pipeline.control.exceptionRaised with
      | false => rfl
      | true => rw [hs, hr] at hend; cases hend
  | aborted hends hs hr hagain hx =>
    have hleast : 0 < c.pipeline.slots.memory.memFault.toNat
        + c.pipeline.slots.decode.isIllegal.toNat := by
      rcases hagain with h | h
      · rw [h]
        exact Nat.add_pos_left Nat.one_pos _
      · rw [h]
        exact Nat.add_pos_right _ Nat.one_pos
    have hfault := Bool.toNat_le c.pipeline.slots.memory.memFault
    have hillegal := Bool.toNat_le c.pipeline.slots.decode.isIllegal
    exact {
      none := by rw [hr, hx]; simp
      again := ⟨fun _ => ⟨hs, hends⟩, fun _ => by omega⟩
      handled := fun _ hend => absurd (hends.symm.trans hend) (by decide)
      halted := fun hend => absurd (hs.symm.trans hend) (by decide)
      atMost := by omega
      third := by
        rw [← Bool.toNat_eq_one, ← Bool.toNat_eq_one]
        exact ⟨fun h => ⟨hs, hends, by omega, by omega⟩, fun ⟨_, _, hf, hb⟩ => by omega⟩ }

end Run

end Core

/-- The exceptions of a run of any program, on any machine whose count starts at zero. The count is
zero as long as none has been raised and when the run halts without one, and one when the halt word
has retired behind an exception. It passes one in the last cycle of a run that does not end with the
halt word, and comes to three if an access has failed and an illegal word was decoded in that cycle.
-/
theorem exceptions_counted {m : Machine} (h : m.counters.exceptions = 0) (n : Nat) :
    (Core.runTicks n m.core).Counted :=
  (Core.standing_run h n).counted

/-- A machine about to meet an illegal word right in front of its exception handler, which loads
from where there is no memory, and has another illegal word behind the instruction after the load.
Its caches do not make it wait. -/
def Machine.colliding : Machine :=
  .ofConfig
    { startPc := 0x7FFC, instructionCache.missLatency := 0, dataCache.missLatency := 0 }
    (.ofWords 0x7FFC [0, 0xFF803103, InstWord.nop, 0]) .zero

/-- The load fails in the cycle in which the second illegal word is decoded. -/
theorem exceptions_counted_colliding :
    Machine.colliding.counters.exceptions = 0 ∧
      (Core.runTicks 6 Machine.colliding.core).machine.counters.exceptions = 3 :=
  ⟨rfl, (exceptions_counted rfl 6).third.mpr (by decide +kernel)⟩

/-- A second exception does not keep the rest of its cycle from counting a third one. -/
theorem third_exception_counted :
    ¬ ∀ m : Machine, m.Fresh → ∀ n,
      (Core.runTicks n m.core).machine.counters.exceptions ≤ 2 := by
  intro h
  have hthree : (Core.runTicks 6 Machine.colliding.core).machine.counters.exceptions = 3 := by
    decide +kernel
  have hle := h Machine.colliding (Machine.fresh_ofConfig rfl _ _) 6
  rw [hthree] at hle
  exact absurd hle (by decide)

end FiveStage
