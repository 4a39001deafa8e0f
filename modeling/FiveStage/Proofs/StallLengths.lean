import Mathlib.Algebra.GroupWithZero.Nat
import FiveStage.Proofs.Accounting
import FiveStage.Proofs.Conservation

/-! # How long an instruction is held in decode

In a run without exceptions the slots at the end of the cycle that decodes an instruction tell for
how many cycles it is held (`Core.wait`): two or one or none for a branch or jump that needs its
operands, one or none for any other instruction. What is left of the wait at any later time is told
by the slots alone (`Core.remaining`), every cycle that moves and holds the instruction takes one
off it, and neither a data-cache freeze nor a miss of the instruction cache changes it
(`Core.Dwells`). -/

namespace FiveStage

open Instruction

namespace Instruction

/-- Whether a producer writes a register that the instruction reads. -/
def readsResult (i producer : Instruction) : Bool := producer.dest.any i.reads

/-- Whether a producer writes a register that the instruction reads before it accesses memory: a
store reads only the register of its address by then. -/
def readsEarly (i producer : Instruction) : Bool :=
  producer.dest.any fun rd => if i.isStore then i.flags.readsRs1 && i.rs1 = rd else i.reads rd

end Instruction

namespace Core

/-- For how many cycles the instruction that has just been decoded is going to be held. -/
def wait (c : Core) : Nat :=
  let slots := c.pipeline.slots
  if slots.decode.needsOperands then
    if slots.execute.isLoad && slots.decode.readsResult slots.execute then 2
    else if slots.decode.readsResult slots.execute
        || slots.memory.isLoad && slots.decode.readsResult slots.memory then 1
    else 0
  else if slots.execute.isLoad && slots.decode.readsEarly slots.execute then 1
  else 0

/-- The next cycle is not frozen. -/
def moves (c : Core) : Bool :=
  !c.pipeline.status.isTerminal && c.pipeline.control.memStall = 0

/-- The next cycle decodes an instruction: it gives it a number. -/
def decodes (c : Core) : Bool := c.machine.nextId < c.tick.machine.nextId

/-- The instruction with a number is in decode. -/
def inDecode (id : Nat) (c : Core) : Bool :=
  c.pipeline.slots.decode.isLive && c.pipeline.slots.decode.id = id

/-- The next cycle, which is not frozen, holds the instruction with a number in decode. -/
def holds (id : Nat) (c : Core) : Bool := c.moves && c.inDecode id && c.tick.inDecode id

/-- A quantity summed up over the next `n` cycles. -/
def total (f : Core → Nat) (n : Nat) (c : Core) : Nat :=
  ((List.range n).map fun t => f (runTicks t c)).sum

/-- The wait of the instruction that the next cycle decodes, if it is one that needs its operands in
decode, or if it is not. -/
def waitBegun (needsOperands : Bool) (c : Core) : Nat :=
  if c.decodes && c.tick.pipeline.slots.decode.needsOperands = needsOperands then c.tick.wait
  else 0

/-- What is left of the wait of the instruction in decode. -/
def remaining (c : Core) : Nat :=
  let slots := c.pipeline.slots
  if c.pipeline.control.controlPending then
    if slots.execute.isLoad && slots.decode.readsResult slots.execute then 2 else 1
  else (loadUseHazard slots.execute slots.decode).toNat

/-- What waits in decode is a branch or jump that needs its operands. -/
def Hesitant (c : Core) : Prop :=
  c.pipeline.control.controlPending = true → c.pipeline.slots.decode.needsOperands = true

section Hazards

theorem loadUseHazard_eq (mem id : Instruction) :
    loadUseHazard mem id = (id.isLive && !id.isControl && mem.isLoad && id.readsEarly mem) := by
  unfold loadUseHazard readsEarly
  cases mem.dest <;> rfl

theorem controlReady_eq (id ex mem : Instruction) :
    controlReady id ex mem =
      !(id.readsResult ex || mem.isLoad && id.readsResult mem) := by
  unfold controlReady blocksControl readsResult
  cases ex.dest <;> cases mem.dest <;> simp [Bool.and_comm]

/-- A jump to a fixed target has nothing to wait for. -/
theorem readsEarly_of_jal {c : Core} (hf : c.pipeline.slots.fetch.isFetched = true)
    (hc : c.decodedWord.isControl = true) (hn : c.decodedWord.needsOperands = false)
    (producer : Instruction) : c.decodedWord.readsEarly producer = false := by
  obtain ⟨w, id, _, hw⟩ := ((decodedWord_spec hf).decoded .idle).exists_form
  rw [hw] at hc hn ⊢
  obtain ⟨h1, h2⟩ := @reads_of_jal c.machine.regs c.pipeline.slots.fetch.pc w id hc hn
  unfold readsEarly
  cases producer.dest with
  | none => rfl
  | some rd => simp [reads, h1, h2]

end Hazards

section Cycle

variable {c : Core}

/-- An access that does not fail leaves the instruction as the producer it was. -/
theorem producer_accessPhase (hf : c.faults = false) :
    c.writebackPhase.accessPhase.pipeline.slots.memory.dest = c.pipeline.slots.execute.dest ∧
      c.writebackPhase.accessPhase.pipeline.slots.memory.isLoad =
        c.pipeline.slots.execute.isLoad := by
  obtain ⟨hs, hl, hr, hm⟩ :=
    forwardStoreData_fields c.pipeline.slots.execute c.pipeline.slots.memory
  have he : c.writebackPhase.accessPhase.pipeline.slots.memory =
      (c.writebackPhase.machine.memoryStage
        (c.pipeline.slots.execute.forwardStoreData c.pipeline.slots.memory)).1 := rfl
  have hsame : c.writebackPhase.accessPhase.pipeline.slots.memory.memFault =
      c.pipeline.slots.execute.memFault := by
    rw [faults, he] at hf
    rw [he, ← hm]
    unfold Machine.memoryStage at hf ⊢
    (repeat' split) <;> simp_all
  have hrd : c.writebackPhase.accessPhase.pipeline.slots.memory.rd =
      c.pipeline.slots.execute.rd := by
    rw [he, ← hr]
    unfold Machine.memoryStage
    (repeat' split) <;> rfl
  have hout := c.outline_accessPhase
  have hflags : c.writebackPhase.accessPhase.pipeline.slots.memory.flags =
      c.pipeline.slots.execute.flags := congrArg (fun o => o.flags) hout
  have hstatus : c.writebackPhase.accessPhase.pipeline.slots.memory.status =
      c.pipeline.slots.execute.status := congrArg (fun o => o.status) hout
  refine ⟨dest_congr hstatus hflags hrd hsame, ?_⟩
  unfold isLoad
  rw [hflags]

/-- What the wait is after the first half of a cycle, in which the producer has moved on to
memory. -/
structure Passed (c r : Core) : Prop where
  decode : r.pipeline.slots.decode = c.pipeline.slots.decode
  pending : r.pipeline.control.controlPending = c.pipeline.control.controlPending
  nextId : r.machine.nextId = c.machine.nextId
  loadUse : r.machine.counters.loadUseStalls = c.machine.counters.loadUseStalls
  control : r.machine.counters.controlStalls = c.machine.counters.controlStalls
  hazard : loadUseHazard r.pipeline.slots.memory r.pipeline.slots.decode =
    loadUseHazard c.pipeline.slots.execute c.pipeline.slots.decode
  feeds : (r.pipeline.slots.memory.isLoad &&
      r.pipeline.slots.decode.readsResult r.pipeline.slots.memory) =
    (c.pipeline.slots.execute.isLoad &&
      c.pipeline.slots.decode.readsResult c.pipeline.slots.execute)

theorem passed_retireHalf (hf : c.faults = false) : c.Passed c.retireHalf := by
  obtain ⟨hdest, hload⟩ := producer_accessPhase hf
  have hcount := c.counters_retireHalf
  obtain ⟨-, -, hid, -⟩ := c.machine_retireHalf
  rw [retireHalf_of_not_faults hf] at hcount hid ⊢
  refine ⟨rfl, rfl, hid, ?_, ?_, ?_, ?_⟩
  · rw [hcount]
  · rw [hcount]
  · show loadUseHazard _ c.pipeline.slots.decode = _
    rw [loadUseHazard_eq, loadUseHazard_eq, readsEarly, hdest, hload]
    rfl
  · show (_ && c.pipeline.slots.decode.readsResult _) = _
    rw [readsResult, hdest, hload]
    rfl

/-- What a cycle does to the instruction in decode and to its wait. -/
inductive Dwells (c d : Core) : Prop
  /-- nothing moves -/
  | rests (moves : c.moves = false) (decode : d.pipeline.slots.decode = c.pipeline.slots.decode)
      (remaining : d.remaining = c.remaining) (nextId : d.machine.nextId = c.machine.nextId)
      (loadUse : d.machine.counters.loadUseStalls = c.machine.counters.loadUseStalls)
      (control : d.machine.counters.controlStalls = c.machine.counters.controlStalls)
  /-- the instruction waits one of its cycles -/
  | waits (moves : c.moves = true) (live : c.pipeline.slots.decode.isLive = true)
      (decode : d.pipeline.slots.decode.outline =
        { c.pipeline.slots.decode.outline with nextPc := d.pipeline.slots.decode.nextPc })
      (remaining : c.remaining = d.remaining + 1) (nextId : d.machine.nextId = c.machine.nextId)
      (loadUse : d.machine.counters.loadUseStalls = c.machine.counters.loadUseStalls
        + (!c.pipeline.slots.decode.needsOperands).toNat)
      (control : d.machine.counters.controlStalls = c.machine.counters.controlStalls
        + c.pipeline.slots.decode.needsOperands.toNat)
  /-- the instruction has moved on, and another one has been decoded or none -/
  | moves (moves : c.moves = true) (remaining : c.remaining = 0)
      (loadUse : d.machine.counters.loadUseStalls = c.machine.counters.loadUseStalls)
      (control : d.machine.counters.controlStalls = c.machine.counters.controlStalls)
      (decode : d.pipeline.slots.decode.isLive = false ∧ d.remaining = 0 ∧
          d.machine.nextId = c.machine.nextId ∨
        d.pipeline.slots.decode.isLive = true ∧ d.remaining = d.wait ∧
          d.pipeline.slots.decode.id = c.machine.nextId ∧
          d.machine.nextId = c.machine.nextId + 1)

section Resolving

/-- A moving fetch changes nothing that the wait depends on. -/
theorem remaining_fetchPhase (c : Core) :
    c.fetchPhase.remaining = c.remaining ∧ c.fetchPhase.wait = c.wait ∧
      (c.Hesitant → c.fetchPhase.Hesitant) := by
  obtain ⟨_, _, _, _, e⟩ := fetchPhase_shape c
  rw [e]
  exact ⟨rfl, rfl, fun h => h⟩

/-- Nothing waits where there is no live instruction. -/
theorem remaining_of_not_live (hd : c.pipeline.slots.decode.isLive = false)
    (hp : c.pipeline.control.controlPending = false) : c.remaining = 0 := by
  simp [remaining, hp, loadUseHazard, hd]

theorem hesitant_of_not_pending (hp : c.pipeline.control.controlPending = false) :
    c.Hesitant := fun h => absurd (h.symm.trans hp) (by decide)

/-- A branch or jump goes on waiting unless its operands are ready. -/
theorem pending_resolvePhase (c : Core) :
    c.resolvePhase.pipeline.control.controlPending =
      (c.pipeline.control.controlPending && !controlReady c.pipeline.slots.decode
        c.pipeline.slots.execute c.pipeline.slots.memory) := by
  unfold resolvePhase
  dsimp only
  cases hp : c.pipeline.control.controlPending <;>
    cases hr : controlReady c.pipeline.slots.decode c.pipeline.slots.execute
      c.pipeline.slots.memory <;> simp [hp]

theorem Hesitant.resolvePhase (h : c.Hesitant) : c.resolvePhase.Hesitant := by
  rcases c.resolvePhase_cases with e | ⟨-, _, -, e⟩
  · rw [e]
    exact h
  · rw [e]
    nofun

/-- When a word has been decoded, what is left of its wait is all of it. -/
theorem remaining_decoded (hl : c.pipeline.slots.decode.isLive = true)
    (hp : c.pipeline.control.controlPending = c.pipeline.slots.decode.needsOperands)
    (hjal : c.pipeline.slots.decode.isControl = true →
      c.pipeline.slots.decode.needsOperands = false →
      c.pipeline.slots.decode.readsEarly c.pipeline.slots.execute = false) :
    c.resolvePhase.remaining = c.resolvePhase.wait := by
  cases hn : c.pipeline.slots.decode.needsOperands with
  | false =>
    rw [hn] at hp
    rw [resolvePhase_of_not_pending c hp, remaining, wait, hp, hn, loadUseHazard_eq, hl]
    cases hc : c.pipeline.slots.decode.isControl with
    | true => simp [hjal hc hn]
    | false =>
      have hbool : ∀ b : Bool, b.toNat = if b = true then 1 else 0 := by decide
      simp [hbool]
  | true =>
    rw [hn] at hp
    cases hr : controlReady c.pipeline.slots.decode c.pipeline.slots.execute
      c.pipeline.slots.memory with
    | false =>
      -- it waits, and something holds it up
      have e : c.resolvePhase = c := if_neg (by simp [hr])
      rw [controlReady_eq, Bool.not_eq_false'] at hr
      rw [e, remaining, wait]
      simp only [hp, hn, hr, if_true]
    | true =>
      -- it does not wait, since nothing holds it up
      rw [show c.resolvePhase = _ from if_pos (by rw [hp, hr]; rfl)]
      rw [controlReady_eq, Bool.not_eq_true', Bool.or_eq_false_iff] at hr
      have hi : ∀ next : Word, ∃ i : Instruction,
          { (c.pipeline.slots.decode.forward c.pipeline.slots.writeback .writeback).forward
            c.pipeline.slots.memory .memory with nextPc := next } = i ∧
          i.isControl = true ∧ i.needsOperands = true ∧
          i.readsResult = c.pipeline.slots.decode.readsResult := by
        intro next
        rw [forward_shape, forward_shape]
        exact ⟨_, rfl, isControl_of_needsOperands hn, hn, rfl⟩
      obtain ⟨i, ei, hc, hn', hreads⟩ := hi
        ((c.pipeline.slots.decode.forward c.pipeline.slots.writeback .writeback).forward
          c.pipeline.slots.memory .memory).successor
      rw [ei, remaining, wait]
      simp [loadUseHazard_eq, hc, hn', hreads, hr.1, hr.2]

end Resolving

section Dwelling

variable {r : Core}

/-- What is left of a wait, by what is going to hold the instruction. -/
theorem remaining_eq (h : c.Passed r) :
    c.remaining =
      match r.hold? with
      | some .control => 1 + (r.pipeline.slots.memory.isLoad &&
          r.pipeline.slots.decode.readsResult r.pipeline.slots.memory).toNat
      | some .loadUse => 1
      | none => 0 := by
  rw [h.feeds]
  unfold remaining hold?
  rw [h.pending, h.hazard]
  cases c.pipeline.control.controlPending with
  | true =>
    have hbool : ∀ b : Bool, (if b = true then 2 else 1) = 1 + b.toNat := by decide
    exact hbool _
  | false =>
    cases hz : loadUseHazard c.pipeline.slots.execute c.pipeline.slots.decode <;> simp [hz]

theorem slots_holdPhase (k : Hold) :
    (r.holdPhase k).pipeline.slots =
        { r.pipeline.slots with
          decode := r.pipeline.slots.decode.forward r.pipeline.slots.writeback .writeback
          execute := .bubble } ∧
      (r.holdPhase k).pipeline.control = r.pipeline.control := by
  cases k <;> exact ⟨rfl, rfl⟩

theorem readsResult_forward (i producer : Instruction) (source : ForwardSource) :
    (i.forward producer source).readsResult = i.readsResult := by
  rw [forward_shape]
  rfl

/-- Behind a bubble only a branch or jump waits, for one cycle. -/
theorem remaining_of_bubble (he : c.pipeline.slots.execute = .bubble) :
    c.remaining = c.pipeline.control.controlPending.toNat := by
  unfold remaining
  cases c.pipeline.control.controlPending <;> simp [he, loadUseHazard_eq, isLoad, bubble]

/-- What is left of the wait when a cycle of it has passed: a load that feeds a branch or jump is in
memory by then. -/
theorem remaining_holdPhase (k : Hold) :
    (r.holdPhase k).resolvePhase.fetchWait.remaining =
      (r.pipeline.control.controlPending && (r.pipeline.slots.memory.isLoad &&
        r.pipeline.slots.decode.readsResult r.pipeline.slots.memory)).toNat := by
  obtain ⟨hslots, hcontrol⟩ := slots_holdPhase (r := r) k
  have hp := pending_resolvePhase (r.holdPhase k)
  rw [hslots, hcontrol, controlReady_eq, readsResult_forward, Bool.not_not] at hp
  rw [remaining_of_bubble]
  · exact congrArg Bool.toNat hp
  · obtain ⟨_, _, _, e⟩ := resolvePhase_shape (r.holdPhase k)
    rw [e]
    exact congrArg Slots.execute hslots

/-- A branch or jump waits with the counter of its kind, any other instruction with the other. -/
theorem counters_holdPhase (h : c.Passed r) (hq : c.Hesitant) {k : Hold}
    (hk : r.hold? = some k) :
    c.pipeline.slots.decode.needsOperands = decide (k = .control) := by
  unfold hold? at hk
  rw [h.pending, h.hazard, loadUseHazard_eq] at hk
  cases hp : c.pipeline.control.controlPending with
  | true =>
    rw [hp, if_pos rfl] at hk
    rw [hq hp, ← Option.some.inj hk]
    rfl
  | false =>
    rw [hp, if_neg (by simp)] at hk
    split at hk
    next hz =>
      rw [← Option.some.inj hk]
      refine Bool.eq_false_iff.mpr fun hn => ?_
      simp [isControl_of_needsOperands hn] at hz
    next => cases hk

/-- A cycle of the wait passes. -/
theorem waits_holdPhase (h : c.Passed r) (hq : c.Hesitant) (hm : c.moves = true)
    (hl : c.pipeline.control.controlPending = true → c.pipeline.slots.decode.isLive = true)
    {k : Hold} (hk : r.hold? = some k) :
    c.Dwells (r.holdPhase k).resolvePhase.fetchWait ∧
      (r.holdPhase k).resolvePhase.fetchWait.Hesitant := by
  have hleft := remaining_eq h
  have hkind := counters_holdPhase h hq hk
  have hrest := remaining_holdPhase (r := r) k
  obtain ⟨hslots, hcontrol⟩ := slots_holdPhase (r := r) k
  have hmach : (r.holdPhase k).resolvePhase.fetchWait.machine = (r.holdPhase k).machine :=
    machine_resolvePhase _
  have hlive : c.pipeline.slots.decode.isLive = true := by
    cases hp : c.pipeline.control.controlPending with
    | true => exact hl hp
    | false =>
      refine Decidable.byContradiction fun hd => ?_
      simp [hold?, h.pending, hp, loadUseHazard, h.decode, hd] at hk
  have hhes : (r.holdPhase k).Hesitant := by
    unfold Hesitant
    rw [hslots, hcontrol, h.pending, needsOperands_forward, h.decode]
    exact hq
  refine ⟨.waits hm hlive ?_ ?_ ?_ ?_ ?_, hhes.resolvePhase⟩
  · have hout :
        (r.holdPhase k).pipeline.slots.decode.outline = c.pipeline.slots.decode.outline := by
      rw [hslots, ← h.decode]
      exact outline_forward _ _ _
    rw [← hout]
    rcases (r.holdPhase k).resolvePhase_cases with e | ⟨-, i, hi, e⟩
    · rw [e]
      rfl
    · rw [e]
      exact hi
  · rw [hleft, hrest, hk]
    cases k with
    | control =>
      have hp : r.pipeline.control.controlPending = true := by
        refine h.pending.trans (Decidable.byContradiction fun hp => ?_)
        simp [hold?, h.pending, hp] at hk
      rw [hp, Bool.true_and]
      exact Nat.add_comm _ _
    | loadUse =>
      have hp : r.pipeline.control.controlPending = false :=
        Bool.eq_false_iff.mpr fun hp => by simp [hold?, hp] at hk
      rw [hp]
      rfl
  · rw [hmach, ← h.nextId]
    cases k <;> rfl
  · rw [hmach, ← h.loadUse, hkind]
    cases k <;> rfl
  · rw [hmach, ← h.control, hkind]
    cases k <;> rfl

/-- The instruction moves on when nothing is left of its wait. -/
theorem moves_of_not_held (h : c.Passed r) (hm : c.moves = true) (hk : r.hold? = none) {d : Core}
    (hl : d.machine.counters.loadUseStalls = r.machine.counters.loadUseStalls)
    (hc : d.machine.counters.controlStalls = r.machine.counters.controlStalls)
    (hd : d.pipeline.slots.decode.isLive = false ∧ d.remaining = 0 ∧
          d.machine.nextId = r.machine.nextId ∨
        d.pipeline.slots.decode.isLive = true ∧ d.remaining = d.wait ∧
          d.pipeline.slots.decode.id = r.machine.nextId ∧
          d.machine.nextId = r.machine.nextId + 1) : c.Dwells d := by
  have hleft := remaining_eq h
  rw [hk] at hleft
  rw [h.nextId] at hd
  exact .moves hm hleft (hl.trans h.loadUse) (hc.trans h.control) hd

/-- Nothing has been decoded. -/
theorem moves_of_vacant (h : c.Passed r) (hm : c.moves = true) (hk : r.hold? = none) {d : Core}
    (hmach : d.machine.nextId = r.machine.nextId)
    (hl : d.machine.counters.loadUseStalls = r.machine.counters.loadUseStalls)
    (hc : d.machine.counters.controlStalls = r.machine.counters.controlStalls)
    (hd : d.pipeline.slots.decode.isLive = false)
    (hp : d.pipeline.control.controlPending = false) : c.Dwells d ∧ d.Hesitant :=
  ⟨moves_of_not_held h hm hk hl hc (.inl ⟨hd, remaining_of_not_live hd hp, hmach⟩),
    hesitant_of_not_pending hp⟩

/-- What a moving fetch leaves alone. -/
theorem fetchPhase_fields (d : Core) :
    d.fetchPhase.machine.nextId = d.machine.nextId ∧
      d.fetchPhase.machine.counters = d.machine.counters ∧
      d.fetchPhase.pipeline.slots.decode = d.pipeline.slots.decode ∧
      d.fetchPhase.pipeline.control.controlPending = d.pipeline.control.controlPending := by
  obtain ⟨_, _, _, _, e⟩ := fetchPhase_shape d
  rw [e]
  exact ⟨rfl, rfl, rfl, rfl⟩

/-- A word has been decoded. -/
theorem moves_takeLegal (h : c.Passed r) (hm : c.moves = true) (hk : r.hold? = none)
    (hi : r.pipeline.slots.fetch.isFetched = true) :
    c.Dwells r.executePhase.takeLegal.resolvePhase.fetchPhase ∧
      r.executePhase.takeLegal.resolvePhase.fetchPhase.Hesitant := by
  let t := r.executePhase.takeLegal
  have hw := decodedWord_spec (c := r.executePhase) hi
  have hleft : t.resolvePhase.remaining = t.resolvePhase.wait :=
    remaining_decoded hw.live rfl fun hc hn => readsEarly_of_jal (c := r.executePhase) hi hc hn _
  have hid : t.resolvePhase.pipeline.slots.decode.id = r.machine.nextId := by
    have : t.resolvePhase.pipeline.slots.decode.id = t.pipeline.slots.decode.id := by
      rcases t.resolvePhase_cases with e | ⟨-, i, hi, e⟩
      · rw [e]
      · rw [e]
        exact congrArg (fun o => o.id) hi
    exact this.trans hw.id
  have hmach : t.resolvePhase.machine = t.machine := machine_resolvePhase t
  obtain ⟨e1, e2, e3, -⟩ := fetchPhase_fields t.resolvePhase
  obtain ⟨e4, e5, hhes⟩ := remaining_fetchPhase t.resolvePhase
  refine ⟨moves_of_not_held h hm hk ?_ ?_ (.inr ⟨?_, ?_, ?_, ?_⟩),
    hhes (Hesitant.resolvePhase fun hp => hp)⟩
  · rw [e2, hmach]
    rfl
  · rw [e2, hmach]
    rfl
  · rw [e3]
    exact (isLive_decode_resolvePhase t).trans hw.live
  · rw [e4, e5, hleft]
  · rw [e3, hid]
  · rw [e1, hmach]
    rfl

end Dwelling

/-- What a moving cycle without an exception does to the instruction in decode. -/
theorem dwells_movingCycle (ho : c.Orderly) (hq : c.Hesitant) (hm : c.moves = true)
    (hx : c.movingCycle.machine.counters.exceptions = 0) :
    c.Dwells c.movingCycle ∧ c.movingCycle.Hesitant := by
  obtain ⟨hf, -, hissue⟩ := ho.halves hx
  have h := passed_retireHalf hf
  show c.Dwells c.retireHalf.issueHalf ∧ c.retireHalf.issueHalf.Hesitant
  cases hissue with
  | held k hk e =>
    rw [e]
    exact waits_holdPhase h hq hm (fun hp => (ho.waiting hp).2.2.1) hk
  | awaiting hk _ _ e =>
    rw [e]
    exact moves_of_vacant h hm hk rfl rfl rfl rfl (MidCycle.not_held hk).1
  | turning target hk _ e =>
    obtain ⟨e1, e2, e3, e4⟩ := fetchPhase_fields (c.retireHalf.executePhase.redirectPhase target)
    rw [redirectPhase_eq] at e e1 e2 e3 e4
    rw [e]
    exact moves_of_vacant h hm hk e1 (by rw [e2]; rfl) (by rw [e2]; rfl)
      (by rw [e3]; exact discard_not_live _) (e4.trans (MidCycle.not_held hk).1)
  | vacant hk _ _ _ e =>
    obtain ⟨e1, e2, e3, e4⟩ := fetchPhase_fields (c.retireHalf.executePhase.setDecode .idle)
    rw [e]
    exact moves_of_vacant h hm hk e1 (by rw [e2]; rfl) (by rw [e2]; rfl) (by rw [e3]; rfl)
      (e4.trans (MidCycle.not_held hk).1)
  | taking hk _ _ hi _ e =>
    rw [e]
    exact moves_takeLegal h hm hk hi

/-- What any cycle of a run without exceptions does to it. -/
theorem dwells_tick (ho : c.Orderly) (hq : c.Hesitant)
    (hx : c.tick.machine.counters.exceptions = 0) : c.Dwells c.tick ∧ c.tick.Hesitant := by
  cases ht : c.pipeline.status.isTerminal with
  | true =>
    rw [tick_of_terminal ht]
    exact ⟨.rests (by simp [moves, ht]) rfl rfl rfl rfl rfl, hq⟩
  | false =>
    have hs := RunStatus.eq_success ht
    rcases Nat.eq_zero_or_pos c.pipeline.control.memStall with hm | hm
    · rw [tick_of_moving hs hm] at hx ⊢
      have hmoves : c.moves = true := by simp [moves, ht, hm]
      obtain ⟨hd, hq'⟩ := dwells_movingCycle ho.countCycle hq hmoves hx
      refine ⟨?_, hq'⟩
      cases hd with
      | rests h1 => exact absurd (h1.symm.trans hmoves) (by decide)
      | waits h1 h2 h3 h4 h5 h6 h7 => exact .waits h1 h2 h3 h4 h5 h6 h7
      | moves h1 h2 h3 h4 h5 => exact .moves h1 h2 h3 h4 h5
    · rw [tick_of_frozen hs hm]
      exact ⟨.rests (by simp [moves, Nat.ne_of_gt hm]) rfl rfl rfl rfl rfl, hq⟩

end Cycle

section Run

variable {c : Core}

theorem total_one_more (f : Core → Nat) (n : Nat) (c : Core) :
    total f (n + 1) c = total f n c + f (runTicks n c) := by
  simp [total, List.range_succ]

theorem total_add (f : Core → Nat) (k n : Nat) (c : Core) :
    total f (k + n) c = total f k c + total f n (runTicks k c) := by
  induction n with
  | zero => rfl
  | succ n ih =>
    rw [← Nat.add_assoc, total_one_more, ih, total_one_more, runTicks_add, Nat.add_assoc]

theorem total_eq_zero {f : Core → Nat} {n : Nat} (h : ∀ t < n, f (runTicks t c) = 0) :
    total f n c = 0 := by
  induction n with
  | zero => rfl
  | succ n ih =>
    rw [total_one_more, ih fun t ht => h t (Nat.lt_succ_of_lt ht), h n (Nat.lt_succ_self n)]

/-- In a run without exceptions every cycle does one of three things to the instruction in
decode. -/
theorem dwells_run (m : Machine) {n : Nat}
    (hx : (runTicks n m.core).machine.counters.exceptions = 0) :
    (∀ t < n, (runTicks t m.core).Dwells (runTicks t m.core).tick) ∧
      (runTicks n m.core).Hesitant := by
  induction n with
  | zero => exact ⟨nofun, hesitant_of_not_pending rfl⟩
  | succ n ih =>
    have hx' : (runTicks n m.core).machine.counters.exceptions = 0 :=
      Nat.le_zero.mp (hx ▸ exceptions_mono _ (Nat.le_succ n))
    obtain ⟨hall, hq⟩ := ih hx'
    rw [runTicks_one_more] at hx ⊢
    obtain ⟨hd, hq'⟩ := dwells_tick (m.orderly.run n hx') hq hx
    refine ⟨fun t ht => ?_, hq'⟩
    rcases Nat.lt_succ_iff_lt_or_eq.mp ht with ht | rfl
    · exact hall t ht
    · exact hd

/-- The cycles counted for instructions that need their operands in decode, or for the others. -/
def stalls (needsOperands : Bool) (c : Core) : Nat :=
  if needsOperands then c.machine.counters.controlStalls else c.machine.counters.loadUseStalls

/-- What is left of the wait, if the instruction in decode is of that kind. -/
def share (needsOperands : Bool) (c : Core) : Nat :=
  if c.pipeline.slots.decode.needsOperands = needsOperands then c.remaining else 0

/-- Each cycle pays for the waits that have been begun. -/
theorem Dwells.stalls (h : c.Dwells c.tick) (kind : Bool) :
    c.tick.stalls kind + c.tick.share kind = c.stalls kind + c.share kind + c.waitBegun kind := by
  unfold Core.stalls share waitBegun decodes
  cases h with
  | rests _ h2 h3 h4 h5 h6 => simp [h2, h3, h4, h5, h6]
  | waits _ _ h3 h4 h5 h6 h7 =>
    have hn : c.tick.pipeline.slots.decode.needsOperands =
        c.pipeline.slots.decode.needsOperands := congrArg (fun o => o.needsOperands) h3
    rw [h4, h5, h6, h7, hn]
    cases c.pipeline.slots.decode.needsOperands <;> cases kind <;> simp <;> omega
  | moves _ h2 h3 h4 h5 =>
    rw [h2, h3, h4]
    rcases h5 with ⟨-, h6, h7⟩ | ⟨-, h6, -, h7⟩
    · simp [h6, h7]
    · simp [h6, h7]

theorem stalls_run {n : Nat} (hd : ∀ t < n, (runTicks t c).Dwells (runTicks t c).tick)
    (kind : Bool) :
    (runTicks n c).stalls kind + (runTicks n c).share kind =
      c.stalls kind + c.share kind + total (waitBegun kind) n c := by
  induction n with
  | zero => rfl
  | succ n ih =>
    have h := (hd n (Nat.lt_succ_self n)).stalls kind
    rw [runTicks_one_more, total_one_more, h, ih fun t ht => hd t (Nat.lt_succ_of_lt ht),
      Nat.add_assoc]

/-- No number is taken back. -/
theorem Dwells.nextId_le {d : Core} (h : c.Dwells d) : c.machine.nextId ≤ d.machine.nextId := by
  cases h with
  | rests _ _ _ h4 => exact Nat.le_of_eq h4.symm
  | waits _ _ _ _ h5 => exact Nat.le_of_eq h5.symm
  | moves _ _ _ _ h5 =>
    rcases h5 with ⟨-, -, h7⟩ | ⟨-, -, -, h7⟩
    · exact Nat.le_of_eq h7.symm
    · exact Nat.le_of_lt (Nat.lt_of_lt_of_eq (Nat.lt_succ_self _) h7.symm)

theorem nextId_le_run {n : Nat} (hd : ∀ t < n, (runTicks t c).Dwells (runTicks t c).tick) {t : Nat}
    (ht : t ≤ n) : (runTicks t c).machine.nextId ≤ (runTicks n c).machine.nextId := by
  induction n with
  | zero =>
    obtain rfl := Nat.le_zero.mp ht
    exact Nat.le_refl _
  | succ n ih =>
    rcases Nat.le_succ_iff.mp ht with ht | rfl
    · rw [runTicks_one_more]
      exact Nat.le_trans (ih (fun u hu => hd u (Nat.lt_succ_of_lt hu)) ht)
        (hd n (Nat.lt_succ_self n)).nextId_le
    · exact Nat.le_refl _

/-- The instruction in decode has been given its number before. -/
def Numbers (c : Core) : Prop :=
  c.pipeline.slots.decode.isLive = true → c.pipeline.slots.decode.id < c.machine.nextId

theorem Numbers.dwells {d : Core} (hn : c.Numbers) (h : c.Dwells d) : d.Numbers := by
  unfold Numbers at hn ⊢
  cases h with
  | rests _ h2 _ h4 =>
    rw [h2, h4]
    exact hn
  | waits _ h2 h3 _ h5 =>
    have hid : d.pipeline.slots.decode.id = c.pipeline.slots.decode.id :=
      congrArg (fun o => o.id) h3
    rw [hid, h5]
    exact fun _ => hn h2
  | moves _ _ _ _ h5 =>
    rcases h5 with ⟨h6, -⟩ | ⟨-, -, h7, h8⟩
    · rw [h6]
      nofun
    · rw [h7, h8]
      exact fun _ => Nat.lt_succ_self _

theorem Numbers.run {n : Nat} (hn : c.Numbers)
    (hd : ∀ t < n, (runTicks t c).Dwells (runTicks t c).tick) : (runTicks n c).Numbers := by
  induction n with
  | zero => exact hn
  | succ n ih =>
    rw [runTicks_one_more]
    exact (ih fun t ht => hd t (Nat.lt_succ_of_lt ht)).dwells (hd n (Nat.lt_succ_self n))

/-- An instruction that has been decoded with some wait, when the pipeline has moved for some cycles
and held it for some. -/
structure Tracked (id wait moved held : Nat) (c : Core) : Prop where
  held : held = min wait moved
  numbered : id < c.machine.nextId
  inside : moved ≤ wait → c.inDecode id = true ∧ c.remaining + moved = wait
  outside : wait < moved → c.pipeline.slots.decode.isLive = true →
    id < c.pipeline.slots.decode.id

/-- Its wait is used up by the cycles that move, and then it moves on. -/
theorem Tracked.tick {id wait moved held : Nat} (h : c.Tracked id wait moved held)
    (hd : c.Dwells c.tick) :
    c.tick.Tracked id wait (moved + c.moves.toNat) (held + (c.holds id).toNat) := by
  have hnumbered := Nat.lt_of_lt_of_le h.numbered hd.nextId_le
  have hheld := h.held
  cases hd with
  | rests hm hs hr =>
    rw [holds, hm]
    refine ⟨hheld, hnumbered, fun hle => ?_, fun hlt => ?_⟩
    · have := h.inside hle
      rwa [inDecode, hs, hr]
    · rw [hs]
      exact h.outside hlt
  | waits hm hl ho hr =>
    have hlive : c.tick.pipeline.slots.decode.isLive = true :=
      (congrArg (fun o => o.isLive) ho).trans hl
    have hid : c.tick.pipeline.slots.decode.id = c.pipeline.slots.decode.id :=
      congrArg (fun o => o.id) ho
    have hsame : c.tick.inDecode id = c.inDecode id := by
      rw [inDecode, inDecode, hlive, hid, hl]
    rw [holds, hm, hsame, Bool.true_and, Bool.and_self]
    rcases Nat.lt_or_ge wait moved with hout | hin
    · -- another instruction is waiting
      have hlt := h.outside hout hl
      have hnot : c.inDecode id = false := by simp [inDecode, Nat.ne_of_gt hlt]
      rw [hnot]
      dsimp only [Bool.toNat_true, Bool.toNat_false]
      exact ⟨by omega, hnumbered, fun hle => absurd hle (by omega), fun _ _ => hid ▸ hlt⟩
    · obtain ⟨hdecode, hleft⟩ := h.inside hin
      rw [hdecode]
      dsimp only [Bool.toNat_true]
      exact ⟨by omega, hnumbered, fun _ => ⟨hsame.trans hdecode, by omega⟩,
        fun hlt => absurd hlt (by omega)⟩
  | moves hm hr _ _ hnew =>
    have hgone : c.tick.pipeline.slots.decode.isLive = true →
        id < c.tick.pipeline.slots.decode.id := by
      intro hl
      rcases hnew with ⟨hdead, -⟩ | ⟨-, -, hid, -⟩
      · exact absurd (hl.symm.trans hdead) (by decide)
      · rw [hid]
        exact h.numbered
    have hnot : c.tick.inDecode id = false := by
      refine Bool.eq_false_iff.mpr fun hin => ?_
      simp only [inDecode, Bool.and_eq_true, decide_eq_true_eq] at hin
      exact absurd (hgone hin.1) (by omega)
    have hpast : wait ≤ moved := by
      rcases Nat.lt_or_ge wait moved with hout | hin
      · exact Nat.le_of_lt hout
      · have := (h.inside hin).2
        omega
    rw [holds, hm, hnot, Bool.and_false]
    dsimp only [Bool.toNat_true, Bool.toNat_false]
    exact ⟨by omega, hnumbered, fun hle => absurd hle (by omega), fun _ => hgone⟩

theorem Tracked.run {id wait : Nat} (h : c.Tracked id wait 0 0) {n : Nat}
    (hd : ∀ t < n, (runTicks t c).Dwells (runTicks t c).tick) :
    (runTicks n c).Tracked id wait (total (fun e => e.moves.toNat) n c)
      (total (fun e => (e.holds id).toNat) n c) := by
  induction n with
  | zero => exact h
  | succ n ih =>
    rw [runTicks_one_more, total_one_more, total_one_more]
    exact (ih fun t ht => hd t (Nat.lt_succ_of_lt ht)).tick (hd n (Nat.lt_succ_self n))

/-- A cycle that gives a number decodes an instruction, and all of its wait is to come. -/
theorem Dwells.tracked (h : c.Dwells c.tick) (hdec : c.decodes = true) :
    c.tick.pipeline.slots.decode.id = c.machine.nextId ∧
      c.tick.Tracked c.tick.pipeline.slots.decode.id c.tick.wait 0 0 := by
  have hlt : c.machine.nextId < c.tick.machine.nextId := of_decide_eq_true hdec
  cases h with
  | rests _ _ _ h4 => exact absurd h4 (Nat.ne_of_gt hlt)
  | waits _ _ _ _ h5 => exact absurd h5 (Nat.ne_of_gt hlt)
  | moves _ _ _ _ h5 =>
    rcases h5 with ⟨-, -, h7⟩ | ⟨hl, hr, hid, hnext⟩
    · exact absurd h7 (Nat.ne_of_gt hlt)
    · refine ⟨hid, (Nat.min_zero _).symm, by omega, fun _ => ⟨?_, hr⟩,
        fun hlt => absurd hlt (Nat.not_lt_zero _)⟩
      simp [inDecode, hl]

/-- Until a number is given nothing with that number is held. -/
theorem holds_before (hn : c.Numbers) {t : Nat}
    (hd : ∀ u < t, (runTicks u c).Dwells (runTicks u c).tick) :
    total (fun e => (e.holds (runTicks t c).machine.nextId).toNat) (t + 1) c = 0 := by
  refine total_eq_zero fun u hu => ?_
  have hle := nextId_le_run hd (Nat.le_of_lt_succ hu)
  have hlt := hn.run fun v hv => hd v (Nat.lt_of_lt_of_le hv (Nat.le_of_lt_succ hu))
  have hnot : (runTicks u c).inDecode (runTicks t c).machine.nextId = false := by
    refine Bool.eq_false_iff.mpr fun hin => ?_
    simp only [inDecode, Bool.and_eq_true, decide_eq_true_eq] at hin
    have := hlt hin.1
    omega
  simp [holds, hnot]

/-- What has become of an instruction by the end of the run. -/
theorem tracked_run (hn : c.Numbers) {n t : Nat}
    (hd : ∀ t < n, (runTicks t c).Dwells (runTicks t c).tick) (ht : t < n)
    (hdec : (runTicks t c).decodes = true) {d : Core} (hdef : d = runTicks (t + 1) c) :
    d.pipeline.slots.decode.id = (runTicks t c).machine.nextId ∧
      (runTicks n c).Tracked d.pipeline.slots.decode.id d.wait
        (total (fun e => e.moves.toNat) (n - (t + 1)) d)
        (total (fun e => (e.holds d.pipeline.slots.decode.id).toNat) n c) := by
  obtain ⟨k, rfl⟩ := Nat.exists_eq_add_of_le (Nat.succ_le_of_lt ht)
  obtain ⟨hid, htrack⟩ := (hd t ht).tracked hdec
  rw [← runTicks_one_more, ← hdef] at hid htrack
  have hbefore := holds_before hn fun u hu => hd u (Nat.lt_trans hu ht)
  rw [← hid] at hbefore
  have hrun := htrack.run (n := k) fun u hu => by
    rw [hdef, ← runTicks_add]
    exact hd (t + 1 + u) (by omega)
  rw [hdef] at hbefore hid hrun ⊢
  rw [total_add _ (t + 1) k, hbefore, Nat.zero_add, runTicks_add (t + 1) k,
    Nat.add_sub_cancel_left]
  exact ⟨hid, hrun⟩

end Run

end Core

/-- How long an instruction is held in decode is told by the slots at the end of the cycle that
decodes it, in every run without exceptions: it is held in the first `wait` cycles that are not
frozen and leaves decode in the next one. When the run halts, the stall counters are the sums of
these waits. -/
theorem stall_lengths_exact {m : Machine} (h : m.Fresh) {n : Nat}
    (hx : (Core.runTicks n m.core).machine.counters.exceptions = 0) :
    (∀ t < n, (Core.runTicks t m.core).decodes = true →
      let d := Core.runTicks (t + 1) m.core
      let id := d.pipeline.slots.decode.id
      let moved := Core.total (fun c => c.moves.toNat) (n - (t + 1)) d
      id = (Core.runTicks t m.core).machine.nextId ∧ d.inDecode id = true ∧
        Core.total (fun c => (c.holds id).toNat) n m.core = min d.wait moved ∧
        ((Core.runTicks n m.core).inDecode id = true ↔ moved ≤ d.wait)) ∧
    ((Core.runTicks n m.core).pipeline.status = .halt →
      (∀ t < n, (Core.runTicks t m.core).decodes = true →
        let d := Core.runTicks (t + 1) m.core
        Core.total (fun c => (c.holds d.pipeline.slots.decode.id).toNat) n m.core = d.wait) ∧
      (Core.runTicks n m.core).machine.counters.loadUseStalls =
        Core.total (Core.waitBegun false) n m.core ∧
      (Core.runTicks n m.core).machine.counters.controlStalls =
        Core.total (Core.waitBegun true) n m.core) := by
  obtain ⟨hd, -⟩ := Core.dwells_run m hx
  have hn : m.core.Numbers := nofun
  refine ⟨fun t ht hdec => ?_, fun hhalt => ?_⟩
  · obtain ⟨hid, htrack⟩ := Core.tracked_run hn hd ht hdec rfl
    refine ⟨hid, ?_, htrack.held, ?_, fun hle => (htrack.inside hle).1⟩
    · obtain ⟨-, hstart⟩ := Core.tracked_run hn (fun u hu => hd u (by omega))
        (Nat.lt_succ_self t) hdec rfl
      exact (hstart.inside (by simp [Core.total])).1
    · intro hin
      refine Nat.le_of_not_lt fun hlt => ?_
      simp only [Core.inDecode, Bool.and_eq_true, decide_eq_true_eq] at hin
      exact absurd (htrack.outside hlt hin.1) (by omega)
  · obtain ⟨-, s, hr, hh⟩ := h.of_halt hhalt
    have hdead := (hr.consistent.emptied hh).decode
    refine ⟨fun t ht hdec => ?_, ?_⟩
    · obtain ⟨-, htrack⟩ := Core.tracked_run hn hd ht hdec rfl
      refine htrack.held.trans (Nat.min_eq_left (Nat.le_of_lt (Nat.lt_of_not_le fun hle => ?_)))
      have hin := (htrack.inside hle).1
      simp [Core.inDecode, hdead] at hin
    · -- nothing is left of any wait
      have hp : (Core.runTicks n m.core).pipeline.control.controlPending = false :=
        Bool.eq_false_iff.mpr fun hp =>
          absurd (((m.orderly.run n hx).waiting hp).2.2.1.symm.trans hdead) (by decide)
      have hend : ∀ kind, (Core.runTicks n m.core).share kind = 0 := by
        simp [Core.share, Core.remaining_of_not_live hdead hp]
      have hstart : ∀ kind, m.core.stalls kind = 0 ∧ m.core.share kind = 0 := by
        intro kind
        have hcounters : m.core.machine.counters = {} := h.counters.1
        refine ⟨?_, by simp [Core.share, Core.remaining_of_not_live (c := m.core) rfl rfl]⟩
        cases kind <;> simp [Core.stalls, hcounters]
      have hsum := fun kind => Core.stalls_run hd kind
      simp only [hend, hstart, Nat.add_zero, Nat.zero_add] at hsum
      exact ⟨hsum false, hsum true⟩

/-- A machine about to load a word, and to branch on it at once. -/
def Machine.branching : Machine :=
  .ofConfig {} (.ofWords 0 [0x00003283, 0x00028463, 0x00128313, InstWord.halt, 0, 0]) .zero

/-- The branch is decoded behind the load, which misses the data cache: it is held for two cycles on
either side of the freeze. -/
theorem stall_lengths_exact_branching :
    Machine.branching.Fresh ∧
      (Core.runTicks 20 Machine.branching.core).machine.counters.exceptions = 0 ∧
      (Core.runTicks 7 Machine.branching.core).decodes = true ∧
      (Core.runTicks 8 Machine.branching.core).wait = 2 ∧
      Core.total (fun c => (c.holds 1).toNat) 20 Machine.branching.core = 2 ∧
      (Core.runTicks 20 Machine.branching.core).machine.counters.controlStalls =
        Core.total (Core.waitBegun true) 20 Machine.branching.core := by
  have hfresh : Machine.branching.Fresh := Machine.fresh_ofConfig rfl _ _
  have hx : (Core.runTicks 20 Machine.branching.core).machine.counters.exceptions = 0 := by
    decide +kernel
  have hhalt : (Core.runTicks 20 Machine.branching.core).pipeline.status = .halt := by
    decide +kernel
  have hdec : (Core.runTicks 7 Machine.branching.core).decodes = true := by decide +kernel
  have hid : (Core.runTicks 8 Machine.branching.core).pipeline.slots.decode.id = 1 := by
    decide +kernel
  have hwait : (Core.runTicks 8 Machine.branching.core).wait = 2 := by decide +kernel
  obtain ⟨hheld, -, hcontrol⟩ := (stall_lengths_exact hfresh hx).2 hhalt
  refine ⟨hfresh, hx, hdec, hwait, ?_, hcontrol⟩
  have hbranch : Core.total
      (fun c => (c.holds (Core.runTicks 8 Machine.branching.core).pipeline.slots.decode.id).toNat)
        20 Machine.branching.core = (Core.runTicks 8 Machine.branching.core).wait :=
    hheld 7 (by decide) hdec
  rwa [hid, hwait] at hbranch

end FiveStage
