import FiveStage.Proofs.ControlState

/-! # The control state and the order of decoding

In every state of a run that goes on, the control state and the slots agree (`Core.Accord`): what is
speculative has not been decoded, and a branch that waits, a redirect, a miss and a fetch that rests
each have the slot they belong to. From there it is told what is decoded: behind an instruction
comes its successor, as decode has shown it, or the handler if an access has raised the first
exception in the meantime (`Core.Behind`). -/

namespace FiveStage

open Instruction

namespace Core

/-- The control state of a pipeline agrees with what its slots hold. -/
structure Accord (c : Core) : Prop where
  fetch : c.pipeline.slots.fetch.status = .normal ∨ c.pipeline.slots.fetch.status = .speculative ∨
    c.pipeline.slots.fetch.status = .idle
  decoded : ∀ i ∈ [c.pipeline.slots.decode, c.pipeline.slots.execute, c.pipeline.slots.memory,
    c.pipeline.slots.writeback], i.status ≠ .speculative
  pending : c.pipeline.control.controlPending = true →
    let i := c.pipeline.slots.decode
    i.isLive = true ∧ i.flags.legal = true ∧ (i.class? = some .branch ∨ i.class? = some .jalr) ∧
      c.pipeline.control.redirect = none
  redirect : ∀ target, c.pipeline.control.redirect = some target →
    let i := c.pipeline.slots.decode
    c.pipeline.slots.fetch.status = .speculative ∧ i.isLive = true ∧
      (i.flags.legal = true ∧
          (i.class? = some .branch ∨ i.class? = some .jal ∨ i.class? = some .jalr) ∧
          i.nextPc = target ∧ target ≠ i.pc + 4 ∨
        i.flags.legal = false ∧ target = 0x8000)
  fetchStall : 0 < c.pipeline.control.fetchStall → c.pipeline.slots.fetch.status ≠ .idle
  memStall : 0 < c.pipeline.control.memStall →
    let i := c.pipeline.slots.memory
    i.isLive = true ∧ i.memFault = false ∧ (i.isLoad = true ∨ i.isStore = true)
  fetchHalted : c.pipeline.control.fetchHalted = true → c.pipeline.slots.fetch.status = .idle ∧
    ∃ i ∈ [c.pipeline.slots.decode, c.pipeline.slots.execute, c.pipeline.slots.memory],
      i.isLive = true ∧ i.flags.halt = true

/-- The slots behind decode hold nothing speculative, and a miss of the data cache belongs to a load
or store that has not failed. -/
structure Tidy (c : Core) : Prop where
  decode : c.pipeline.slots.decode.status ≠ .speculative
  execute : c.pipeline.slots.execute.status ≠ .speculative
  memory : c.pipeline.slots.memory.status ≠ .speculative
  writeback : c.pipeline.slots.writeback.status ≠ .speculative
  missing : 0 < c.pipeline.control.memStall →
    c.pipeline.slots.memory.isLive = true ∧ c.pipeline.slots.memory.memFault = false ∧
      (c.pipeline.slots.memory.isLoad = true ∨ c.pipeline.slots.memory.isStore = true)

/-- The successor of the instruction with a number, once decode holds it and knows its successor. -/
def successor? (id : Nat) (c : Core) : Option Word :=
  if c.inDecode id && !c.pipeline.control.controlPending then some c.pipeline.slots.decode.nextPc
  else none

/-- In the run from a state, the word that is decoded next behind that of cycle `i` is that of cycle
`n`. -/
structure DecodesNext (c : Core) (i n : Nat) : Prop where
  lt : i < n
  first : (runTicks i c).decodes = true
  between : ∀ j, i < j → j < n → (runTicks j c).decodes = false
  second : (runTicks n c).decodes = true

/-- What is known of the word to be decoded, `k` cycles behind the one that has decoded the
instruction before it. -/
inductive Behind (first : Core) (k : Nat) : Prop
  /-- nothing yet: a branch or jump waits -/
  | waiting
      (pending : ∀ j ≤ k, (runTicks j first).pipeline.control.controlPending = true)
      (decode : (runTicks k first).inDecode first.pipeline.slots.decode.id = true)
      (raised : (runTicks k first).pipeline.control.exceptionRaised =
        first.pipeline.control.exceptionRaised)
  /-- it is the successor that decode has shown -/
  | known (next : Word)
      (pending : (runTicks k first).pipeline.control.controlPending = false)
      (upcoming : (runTicks k first).upcoming = next)
      (raised : (runTicks k first).pipeline.control.exceptionRaised =
        first.pipeline.control.exceptionRaised)
      (shown : ∃ j ≤ k, (runTicks j first).successor? first.pipeline.slots.decode.id = some next)
      (only : ∀ j ≤ k, ∀ pc,
        (runTicks j first).successor? first.pipeline.slots.decode.id = some pc → pc = next)
  /-- it is the first of the handler -/
  | handler (before : first.pipeline.control.exceptionRaised = false)
      (after : (runTicks k first).pipeline.control.exceptionRaised = true)
      (pending : (runTicks k first).pipeline.control.controlPending = false)
      (upcoming : (runTicks k first).upcoming = exceptionHandler)

variable {c d : Core} {icache dcache : Geometry}

section Slots

/-- An access that misses is one that does not fail. -/
theorem missing_accessPhase (hm : c.pipeline.control.memStall = 0)
    (hclean : c.pipeline.slots.execute.memFault = false)
    (h : 0 < c.writebackPhase.accessPhase.pipeline.control.memStall) :
    c.writebackPhase.accessPhase.pipeline.slots.memory.isLive = true ∧
      c.writebackPhase.accessPhase.pipeline.slots.memory.memFault = false ∧
      (c.writebackPhase.accessPhase.pipeline.slots.memory.isLoad = true ∨
        c.writebackPhase.accessPhase.pipeline.slots.memory.isStore = true) := by
  let i := c.pipeline.slots.execute.forwardStoreData c.pipeline.slots.memory
  obtain ⟨-, -, hstall⟩ := c.stall_accessPhase
  have hmiss : c.hits = false := by
    refine Bool.eq_false_iff.mpr fun hhit => ?_
    rw [hstall, hhit, if_pos rfl, hm] at h
    exact absurd h (Nat.lt_irrefl 0)
  have hfits : (Machine.accessesMemory i && decide (i.Fits c.writebackPhase.machine.memory)) =
      true := by
    refine Decidable.byContradiction fun hn => ?_
    have hhit : c.hits = true := if_neg hn
    exact absurd (hmiss.symm.trans hhit) (by decide)
  obtain ⟨haccess, hfits⟩ := Bool.and_eq_true_iff.mp hfits
  have hslot : c.writebackPhase.accessPhase.pipeline.slots.memory =
      { i with memResult := i.loaded c.writebackPhase.machine.memory } := by
    show (c.writebackPhase.machine.memoryStage i).1 = _
    rw [Machine.memoryStage, if_pos haccess, if_pos (of_decide_eq_true hfits)]
  obtain ⟨hlive, hkind⟩ := Bool.and_eq_true_iff.mp haccess
  obtain ⟨-, -, -, hfault⟩ :=
    forwardStoreData_fields c.pipeline.slots.execute c.pipeline.slots.memory
  rw [hslot]
  exact ⟨hlive, hfault.trans hclean, (Bool.or_eq_true _ _).mp hkind⟩

theorem Tidy.movingCycle (h : c.Tidy) (hslot : c.InPlace) (hm : c.pipeline.control.memStall = 0)
    (hclean : c.pipeline.slots.execute.memFault = false) : c.movingCycle.Tidy := by
  obtain ⟨_, hadvances⟩ := advances_movingCycle hslot
  obtain ⟨hwriteback, hmemory⟩ := issueHalf_slots c.retireHalf
  have hslots := c.slots_retireHalf
  have hstall : c.movingCycle.pipeline.control.memStall =
      c.writebackPhase.accessPhase.pipeline.control.memStall := by
    refine (dcache_issueHalf ?_).2.trans c.stalls_retireHalf.2
    rw [fetch_retireHalf]
    exact hslot.fetch
  have hpassed : c.movingCycle.pipeline.slots.memory =
      c.writebackPhase.accessPhase.pipeline.slots.memory := by
    rw [Core.movingCycle, hmemory, hslots]
  exact {
    decode := hadvances.inPlace.decode
    execute := by
      rw [Core.movingCycle, issueHalf_execute]
      split
      · decide
      · have ho : c.retireHalf.executePhase.pipeline.slots.execute.outline =
            c.retireHalf.pipeline.slots.decode.outline :=
          (outline_executed _).trans ((outline_forward _ _ _).trans (outline_forward _ _ _))
        have hstatus : c.retireHalf.executePhase.pipeline.slots.execute.status =
            c.retireHalf.pipeline.slots.decode.status := congrArg (fun o => o.status) ho
        rw [hstatus]
        exact decode_retireHalf hslot
    memory := by
      have hstatus : c.writebackPhase.accessPhase.pipeline.slots.memory.status =
          c.pipeline.slots.execute.status := congrArg (fun o => o.status) c.outline_accessPhase
      rw [hpassed, hstatus]
      exact h.execute
    writeback := by
      rw [Core.movingCycle, hwriteback, hslots]
      exact h.memory
    missing := by
      rw [hstall, hpassed]
      exact missing_accessPhase hm hclean }

theorem Tidy.tick (h : c.Tidy) (hc : c.Coherent icache dcache)
    (hrun : c.pipeline.status.isTerminal = false) : c.tick.Tidy := by
  have hcount : c.countCycle.Tidy := { h with }
  rcases frozen_or_moves hrun with hz | hm
  · rw [tick_eq_of_frozen hz]
    exact { hcount with
      writeback := nofun
      missing := fun hlt => h.missing (Nat.lt_of_lt_of_le hlt (Nat.sub_le _ _)) }
  · rw [tick_eq_of_moves hm]
    exact hcount.movingCycle ⟨hc.slot, h.decode⟩ (moves_iff.mp hm).2 hc.executeClean

theorem tidy_core (m : Machine) : m.core.Tidy := ⟨nofun, nofun, nofun, nofun, nofun⟩

theorem Tidy.run (h : c.Tidy) (hc : c.Coherent icache dcache) (n : Nat)
    (hrun : (runTicks n c).pipeline.status.isTerminal = false) : (runTicks n c).Tidy := by
  induction n with
  | zero => exact h
  | succ n ih =>
    rw [runTicks_one_more] at hrun ⊢
    have hrun' := running_of_tick hrun
    exact (ih hrun').tick (hc.run n hrun') hrun'

/-- What the invariants of the run say of the control state. -/
theorem Guided.accord (h : c.Guided) (hc : c.Coherent icache dcache) (ht : c.Tidy) : c.Accord where
  fetch := by
    rcases hc.slot with hf | hi
    · simp only [isFetched, Bool.or_eq_true, decide_eq_true_eq] at hf
      exact hf.imp id .inl
    · rw [hi]
      exact .inr (.inr rfl)
  decoded := by
    simp only [List.mem_cons, List.not_mem_nil, or_false, forall_eq_or_imp, forall_eq]
    exact ⟨ht.decode, ht.execute, ht.memory, ht.writeback⟩
  pending hp := by
    obtain ⟨hlive, hneeds, hredirect, -⟩ := h.guides.waiting hp
    simp only [needsOperands, Bool.and_eq_true, Bool.or_eq_true, decide_eq_true_eq] at hneeds
    exact ⟨hlive, hneeds.1, hneeds.2, hredirect⟩
  redirect target hr := by
    obtain ⟨hspeculative, hsteers⟩ := h.guides.steered target hr
    refine ⟨hspeculative, hsteers.live, ?_⟩
    cases hsteers with
    | control _ hcontrol hnext hturns =>
      simp only [isControl, Bool.and_eq_true, Bool.or_eq_true, decide_eq_true_eq, or_assoc]
        at hcontrol
      exact .inl ⟨hcontrol.1, hcontrol.2, hnext, hturns⟩
    | illegal _ hlegal htarget => exact .inr ⟨hlegal, htarget⟩
  fetchStall hpos hi := by
    refine absurd (hc.vacant (hc.slot.resolve_left ?_)) (Nat.ne_of_gt hpos)
    simp [isFetched, hi]
  memStall := ht.missing
  fetchHalted hh := by
    have ends : ∀ i : Instruction, i.ends = true → i.isLive = true ∧ i.flags.halt = true :=
      fun i hi => (Bool.and_eq_true _ _).mp hi
    refine ⟨?_, ?_⟩
    · cases h.fetching with
      | starting _ hh' => exact absurd (hh.symm.trans hh') (by decide)
      | following _ hh' => exact absurd (hh.symm.trans hh') (by decide)
      | resting hi => rw [hi]; rfl
    · rcases hc.resting hh with hm | he | hd
      · exact ⟨_, by simp, ends _ hm⟩
      · exact ⟨_, by simp, ends _ he⟩
      · exact ⟨_, by simp, ends _ hd⟩

end Slots

section Order

theorem successor?_of_pending (id : Nat) (hp : c.pipeline.control.controlPending = true) :
    c.successor? id = none := if_neg (by rw [hp]; simp)

theorem successor?_of_not_live (id : Nat) (hd : c.pipeline.slots.decode.isLive = false) :
    c.successor? id = none := if_neg (by rw [inDecode, hd]; simp)

theorem inDecode_congr (id : Nat)
    (hlive : d.pipeline.slots.decode.isLive = c.pipeline.slots.decode.isLive)
    (hid : d.pipeline.slots.decode.id = c.pipeline.slots.decode.id) :
    d.inDecode id = c.inDecode id := by
  rw [inDecode, inDecode, hlive, hid]

/-- An outline tells the number and the successor. -/
theorem successor?_congr (id : Nat)
    (ho : d.pipeline.slots.decode.outline = c.pipeline.slots.decode.outline)
    (hp : d.pipeline.control.controlPending = c.pipeline.control.controlPending) :
    d.successor? id = c.successor? id := by
  have hin : d.inDecode id = c.inDecode id :=
    inDecode_congr id (congrArg (fun o => o.isLive) ho) (congrArg (fun o => o.id) ho)
  have hnext : d.pipeline.slots.decode.nextPc = c.pipeline.slots.decode.nextPc :=
    congrArg (fun o => o.nextPc) ho
  rw [successor?, successor?, hin, hp, hnext]

/-- Decode shows the successor of what it holds unless that waits. -/
theorem successor?_of_inDecode {id : Nat} (hin : c.inDecode id = true)
    (hp : c.pipeline.control.controlPending = false) :
    c.successor? id = some c.pipeline.slots.decode.nextPc := if_pos (by rw [hin, hp]; rfl)

/-- Right behind an instruction that has been decoded. -/
theorem Behind.start {first : Core} (hlive : first.pipeline.slots.decode.isLive = true)
    (hupcoming : first.upcoming = first.pipeline.slots.decode.nextPc) : first.Behind 0 := by
  have hin : first.inDecode first.pipeline.slots.decode.id = true := by
    rw [inDecode, hlive]
    simp
  cases hp : first.pipeline.control.controlPending with
  | true =>
    refine .waiting ?_ hin rfl
    intro j hj
    rw [Nat.le_zero.mp hj]
    exact hp
  | false =>
    have hshown := successor?_of_inDecode hin hp
    refine .known _ hp hupcoming rfl ⟨0, Nat.le_refl 0, hshown⟩ ?_
    intro j hj pc hpc
    rw [Nat.le_zero.mp hj] at hpc
    exact Option.some.inj (hpc.symm.trans hshown)

/-- A cycle that decodes nothing leaves what is known as it is, or makes it known, or a fault puts
the handler in its place. -/
theorem Behind.next {first : Core} {k : Nat} (h : first.Behind k)
    (hstep : (runTicks k first).Proceeds (runTicks (k + 1) first))
    (hnone : (runTicks (k + 1) first).machine.nextId = (runTicks k first).machine.nextId) :
    first.Behind (k + 1) := by
  have upTo : ∀ {P : Nat → Prop}, (∀ j ≤ k, P j) → P (k + 1) → ∀ j ≤ k + 1, P j := by
    intro P hle hlast j hj
    rcases Nat.le_or_eq_of_le_succ hj with hj | rfl
    · exact hle j hj
    · exact hlast
  cases hstep with
  | takes _ _ _ _ htaken => exact absurd (htaken.symm.trans hnone) (Nat.succ_ne_self _)
  | stays hpending hdecode hupcoming hraised =>
    cases h with
    | waiting hp hin hr =>
      have hp' := hpending.trans (hp k (Nat.le_refl k))
      have ho := hdecode.resolve_right fun hdead => absurd (hdead.1.symm.trans hp') (by decide)
      have hin' := inDecode_congr first.pipeline.slots.decode.id
        (congrArg (fun o => o.isLive) ho) (congrArg (fun o => o.id) ho)
      exact .waiting (upTo hp hp') (hin'.trans hin) (hraised.trans hr)
    | known next hp hu hr hshown honly =>
      obtain ⟨j, hj, hshown⟩ := hshown
      refine .known next (hpending.trans hp) (hupcoming.trans hu) (hraised.trans hr)
        ⟨j, Nat.le_succ_of_le hj, hshown⟩ (upTo honly ?_)
      intro pc hpc
      rcases hdecode with ho | ⟨-, hdead⟩
      · rw [successor?_congr _ ho hpending] at hpc
        exact honly k (Nat.le_refl k) pc hpc
      · rw [successor?_of_not_live _ hdead] at hpc
        cases hpc
    | handler hb ha hp hu =>
      exact .handler hb (hraised.trans ha) (hpending.trans hp) (hupcoming.trans hu)
  | resolves hbefore hafter hdecode hupcoming hraised =>
    cases h with
    | waiting hp hin hr =>
      have hin' := inDecode_congr first.pipeline.slots.decode.id
        (congrArg (fun o => o.isLive) hdecode) (congrArg (fun o => o.id) hdecode)
      have hshown := successor?_of_inDecode (hin'.trans hin) hafter
      refine .known _ hafter hupcoming (hraised.trans hr) ⟨k + 1, Nat.le_refl _, hshown⟩
        (upTo ?_ ?_)
      · intro j hj pc hpc
        rw [successor?_of_pending _ (hp j hj)] at hpc
        cases hpc
      · intro pc hpc
        exact Option.some.inj (hpc.symm.trans hshown)
    | known _ hp => exact absurd (hp.symm.trans hbefore) (by decide)
    | handler _ _ hp => exact absurd (hp.symm.trans hbefore) (by decide)
  | diverts hbefore hafter hpending _ hupcoming =>
    cases h with
    | waiting _ _ hr => exact .handler (hr.symm.trans hbefore) hafter hpending hupcoming
    | known _ _ _ hr => exact .handler (hr.symm.trans hbefore) hafter hpending hupcoming
    | handler _ ha => exact absurd (hbefore.symm.trans ha) (by decide)

theorem Behind.run {first : Core} (h : first.Behind 0) (hguided : first.Guided) {k : Nat}
    (hrun : (runTicks k first).pipeline.status.isTerminal = false)
    (hnone : ∀ j < k, (runTicks j first).decodes = false) : first.Behind k := by
  induction k with
  | zero => exact h
  | succ k ih =>
    have hrun' : (runTicks k first).pipeline.status.isTerminal = false := by
      rw [runTicks_one_more] at hrun
      exact running_of_tick hrun
    have hstep := (hguided.run k).proceeds hrun'
    rw [← runTicks_one_more] at hstep
    refine (ih hrun' fun j hj => hnone j (Nat.lt_succ_of_lt hj)).next hstep ?_
    have hle := of_decide_eq_false (hnone k (Nat.lt_succ_self k))
    rw [← runTicks_one_more] at hle
    cases hstep with
    | stays _ _ _ _ hn => exact hn
    | resolves _ _ _ _ _ hn => exact hn
    | takes _ _ _ _ hn => exact absurd (hn ▸ Nat.lt_succ_self _) hle
    | diverts _ _ _ _ _ hn => exact hn

theorem running_of_decodes (h : c.decodes = true) : c.pipeline.status.isTerminal = false := by
  refine Bool.eq_false_iff.mpr fun ht => ?_
  have hlt := of_decide_eq_true h
  rw [tick_of_terminal ht] at hlt
  exact absurd hlt (Nat.lt_irrefl _)

/-- A cycle that decodes goes on where the front end was about to go. -/
theorem Guided.takes_of_decodes (h : c.Guided) (hd : c.decodes = true) :
    c.pipeline.control.controlPending = false ∧ c.tick.pipeline.slots.decode.isLive = true ∧
      c.tick.pipeline.slots.decode.pc = c.upcoming ∧
      (c.tick.pipeline.slots.decode.flags.legal = true →
        c.tick.upcoming = c.tick.pipeline.slots.decode.nextPc) := by
  have hlt := of_decide_eq_true hd
  cases h.proceeds (running_of_decodes hd) with
  | takes hp hlive hpc hnext => exact ⟨hp, hlive, hpc, fun hl => (hnext hl).2⟩
  | stays _ _ _ _ hn => exact absurd (hn ▸ hlt) (Nat.lt_irrefl _)
  | resolves _ _ _ _ _ hn => exact absurd (hn ▸ hlt) (Nat.lt_irrefl _)
  | diverts _ _ _ _ _ hn => exact absurd (hn ▸ hlt) (Nat.lt_irrefl _)

/-- Frozen cycles leave a pending redirect alone. -/
theorem redirect_frozen (hrun : c.pipeline.status.isTerminal = false) {k : Nat}
    (hk : k ≤ c.pipeline.control.memStall) :
    (runTicks k c).pipeline.control.redirect = c.pipeline.control.redirect := by
  induction k with
  | zero => rfl
  | succ k ih =>
    obtain ⟨hrun', hleft⟩ := memStall_run hrun (Nat.le_of_succ_le hk)
    have hz : (runTicks k c).frozen = true :=
      frozen_iff.mpr ⟨RunStatus.eq_success hrun', hleft ▸ Nat.sub_pos_of_lt hk⟩
    rw [runTicks_one_more, tick_eq_of_frozen hz]
    exact ih (Nat.le_of_succ_le hk)

/-- What is decoded behind an instruction is its successor, or the handler. -/
theorem Guided.decoded_next (h : c.Guided) {i n : Nat} (hnext : c.DecodesNext i n)
    (hlegal : (runTicks (i + 1) c).pipeline.slots.decode.flags.legal = true) :
    if (runTicks (i + 1) c).pipeline.control.exceptionRaised = false ∧
        (runTicks n c).pipeline.control.exceptionRaised = true then
      (runTicks n c).tick.pipeline.slots.decode.pc = exceptionHandler
    else
      (∃ k, i < k ∧ k ≤ n ∧
        (runTicks k c).successor? (runTicks (i + 1) c).pipeline.slots.decode.id =
          some (runTicks n c).tick.pipeline.slots.decode.pc) ∧
      ∀ k, i < k → k ≤ n → ∀ pc,
        (runTicks k c).successor? (runTicks (i + 1) c).pipeline.slots.decode.id = some pc →
          pc = (runTicks n c).tick.pipeline.slots.decode.pc := by
  obtain ⟨-, hlive, -, hknown⟩ := (h.run i).takes_of_decodes hnext.first
  obtain ⟨hp, -, hpc, -⟩ := (h.run n).takes_of_decodes hnext.second
  rw [← runTicks_one_more] at hlive hknown
  have hrun := running_of_decodes hnext.second
  obtain ⟨k, hk⟩ := Nat.exists_eq_add_of_le (show i + 1 ≤ n from hnext.lt)
  have hlater : ∀ j, runTicks j (runTicks (i + 1) c) = runTicks (i + 1 + j) c :=
    fun j => (runTicks_add _ _ _).symm
  have hbehind : (runTicks (i + 1) c).Behind k := by
    refine (Behind.start hlive (hknown hlegal)).run (h.run (i + 1)) ?_ ?_
    · rw [hlater, ← hk]
      exact hrun
    · intro j hj
      rw [hlater]
      exact hnext.between _ (by omega) (by omega)
  rw [hpc]
  cases hbehind with
  | waiting hwaits =>
    have hp' := hwaits k (Nat.le_refl k)
    rw [hlater, ← hk] at hp'
    exact absurd (hp.symm.trans hp') (by decide)
  | known next _ hu hr hshown honly =>
    rw [hlater, ← hk] at hu hr
    obtain ⟨j, hj, hshown⟩ := hshown
    rw [if_neg (fun ⟨hb, ha⟩ => absurd (hb.symm.trans (hr.symm.trans ha)) (by decide)), hu]
    refine ⟨⟨i + 1 + j, by omega, by omega, ?_⟩, ?_⟩
    · rw [← hlater]
      exact hshown
    · intro l hl hln pc hshows
      obtain ⟨j, rfl⟩ := Nat.exists_eq_add_of_le (show i + 1 ≤ l from hl)
      rw [← hlater] at hshows
      exact honly j (by omega) pc hshows
  | handler hb ha _ hu =>
    rw [hlater, ← hk] at ha hu
    rw [if_pos ⟨hb, ha⟩]
    exact hu

end Order

end Core

/-- The control state of a pipeline is coherent in every state of every run that goes on, and tells
in which order the program is decoded.

Control state and slots agree (`Core.Accord`). A pending redirect stays while cycles are frozen; the
next cycle that moves throws away what fetch holds and fetches at the target, or at the handler if
an access raises the first exception in that very cycle. What a cycle that moves throws away in
fetch was speculative, unless an access has raised the first exception in it. Behind an instruction
the first word to be decoded is at its successor, which decode shows before that and never shows
otherwise, or at the handler if the first exception was raised in the meantime. -/
theorem control_state_coherent (m : Machine) {n : Nat}
    (hrun : (Core.runTicks n m.core).pipeline.status.isTerminal = false) :
    let c := Core.runTicks n m.core
    c.Accord ∧
    (∀ target, c.pipeline.control.redirect = some target →
      (∀ k ≤ c.pipeline.control.memStall,
        (Core.runTicks k c).pipeline.control.redirect = some target) ∧
      let d := Core.runTicks c.pipeline.control.memStall c
      d.moves = true ∧ d.tick.pipeline.control.redirect = none ∧
        d.tick.pipeline.slots.decode = d.pipeline.slots.fetch.squash ∧
        d.tick.pipeline.slots.fetch.pc =
          if d.tick.pipeline.control.exceptionRaised = d.pipeline.control.exceptionRaised then
            target
          else 0x8000) ∧
    (c.pipeline.control.memStall = 0 → c.tick.pipeline.slots.decode.status = .squashed →
      c.tick.pipeline.slots.decode = c.pipeline.slots.fetch.squash ∧
        (c.pipeline.slots.fetch.status = .speculative ∨
          c.pipeline.control.exceptionRaised = false ∧
            c.tick.pipeline.control.exceptionRaised = true ∧
            c.tick.pipeline.slots.memory.memFault = true)) ∧
    (∀ i, m.core.DecodesNext i n →
      let first := Core.runTicks (i + 1) m.core
      let decoded := first.pipeline.slots.decode
      decoded.flags.legal = true →
      if first.pipeline.control.exceptionRaised = false ∧
          c.pipeline.control.exceptionRaised = true then
        c.tick.pipeline.slots.decode.pc = 0x8000
      else
        (∃ k, i < k ∧ k ≤ n ∧
          (Core.runTicks k m.core).successor? decoded.id =
            some c.tick.pipeline.slots.decode.pc) ∧
        ∀ k, i < k → k ≤ n → ∀ pc, (Core.runTicks k m.core).successor? decoded.id = some pc →
          pc = c.tick.pipeline.slots.decode.pc) := by
  intro c
  have hcoherent := Core.coherent_core m
  have hguided : c.Guided := (Core.guided_core m).run n
  have hc := hcoherent.run n hrun
  have htidy := (Core.tidy_core m).run hcoherent n hrun
  refine ⟨hguided.accord hc htidy, fun target hr => ?_, fun hm hq => ?_, fun i hnext => ?_⟩
  · have hstays : ∀ k ≤ c.pipeline.control.memStall,
        (Core.runTicks k c).pipeline.control.redirect = some target := by
      intro k hk
      exact (Core.redirect_frozen hrun hk).trans hr
    obtain ⟨hrun', hover⟩ := Core.memStall_run hrun (Nat.le_refl c.pipeline.control.memStall)
    have hm : (Core.runTicks c.pipeline.control.memStall c).moves = true :=
      Core.moves_iff.mpr ⟨RunStatus.eq_success hrun', by rw [hover, Nat.sub_self]⟩
    have hsealed := (Core.sealed_core m).run hcoherent (n + c.pipeline.control.memStall)
    rw [Core.runTicks_add] at hsealed
    exact ⟨hstays, hm, (hguided.run _).turns (hsealed hrun') hm (hstays _ (Nat.le_refl _))⟩
  · exact hguided.speculative_of_squashed (Core.moves_iff.mpr ⟨RunStatus.eq_success hrun, hm⟩) hq
  · exact (Core.guided_core m).decoded_next hnext

/-- A machine about to load a word with a miss of its data cache, and to jump two words behind
that. -/
def Machine.turning : Machine :=
  .ofConfig {} (.ofWords 0 [0x00003283, InstWord.nop, 0x0080006F, 0, InstWord.halt, 0]) .zero

/-- The jump is decoded in cycle 8, in which the load misses. Fetch turns to its target in cycle 14,
as soon as the miss is over, and the word there is decoded in cycle 20, the first behind the
jump. -/
theorem control_state_coherent_turning :
    (Core.runTicks 9 Machine.turning.core).pipeline.status.isTerminal = false ∧
      (Core.runTicks 9 Machine.turning.core).Accord ∧
      (∀ k ≤ 5, (Core.runTicks k (Core.runTicks 9 Machine.turning.core)).pipeline.control.redirect =
        some 16) ∧
      (Core.runTicks 15 Machine.turning.core).pipeline.control.redirect = none ∧
      (Core.runTicks 20 Machine.turning.core).pipeline.status.isTerminal = false ∧
      Machine.turning.core.DecodesNext 8 20 ∧
      (Core.runTicks 21 Machine.turning.core).pipeline.slots.decode.pc = 16 := by
  have hrun : (Core.runTicks 9 Machine.turning.core).pipeline.status.isTerminal = false := by
    decide +kernel
  have hlater : (Core.runTicks 20 Machine.turning.core).pipeline.status.isTerminal = false := by
    decide +kernel
  have hstall : (Core.runTicks 9 Machine.turning.core).pipeline.control.memStall = 5 := by
    decide +kernel
  have hnext : Machine.turning.core.DecodesNext 8 20 := by
    have hbetween : ∀ j < 20, 8 < j → (Core.runTicks j Machine.turning.core).decodes = false := by
      decide +kernel
    exact ⟨by decide, by decide +kernel, fun j hlo hhi => hbetween j hhi hlo, by decide +kernel⟩
  obtain ⟨haccord, hturns, -, -⟩ := control_state_coherent Machine.turning hrun
  obtain ⟨-, -, -, horder⟩ := control_state_coherent Machine.turning hlater
  obtain ⟨hstays, -, hover, -⟩ := hturns 16 (by decide +kernel)
  rw [hstall] at hstays hover
  rw [← Core.runTicks_one_more, ← Core.runTicks_add] at hover
  have hdecoded := horder 8 hnext (by decide +kernel)
  rw [if_neg (by decide +kernel)] at hdecoded
  exact ⟨hrun, haccord, hstays, hover, hlater, hnext,
    (hdecoded.2 9 (by decide) (by decide) 16 (by decide +kernel)).symm⟩

end FiveStage
