import FiveStage.Proofs.Coherence
import FiveStage.Proofs.MemoryFaults

/-! # The halt word is the last in flight

Once the halt word has been decoded fetch rests, so that no instruction is ever in flight behind it
(`Core.Sealed`). Every cycle that does not end the run keeps this, whatever it raises
(`Core.Sealed.tick`): a failing access in front of the halt word throws it away, and fetch goes on
at the handler. -/

namespace FiveStage

open Instruction

namespace Core

/-- The flags of the live instructions behind fetch, the oldest first. -/
def flagged (c : Core) : List Flags := c.inFlight.map (·.flags)

/-- Fetch has come to rest, and nothing is about to wake it. -/
structure AtRest (c : Core) : Prop where
  slot : c.pipeline.slots.fetch = .idle
  redirect : c.pipeline.control.redirect = none
  pending : c.pipeline.control.controlPending = false
  halted : c.pipeline.control.fetchHalted = true

/-- What is in flight has the flags of words, none is behind a halt word, and if there is a halt
word fetch is at rest. Only an instruction waits for operands. -/
structure Sealed (c : Core) : Prop where
  words : ∀ f ∈ c.flagged, ∃ w : InstWord, f = w.flags
  last : c.flagged.Pairwise fun f _ => f.halt = false
  rest : (∃ f ∈ c.flagged, f.halt = true) → c.AtRest
  waiting : c.pipeline.control.controlPending = true → c.pipeline.slots.decode.flags.legal = true

variable {c d : Core}

section Flagged

theorem flagged_eq (c : Core) :
    c.flagged =
      ([c.pipeline.slots.memory, c.pipeline.slots.execute].filter (·.isLive)).map (·.flags)
        ++ ([c.pipeline.slots.decode].filter (·.isLive)).map (·.flags) := by
  rw [flagged, inFlight_eq, List.map_append]

theorem flagged_resolvePhase (c : Core) : c.resolvePhase.flagged = c.flagged := by
  rcases c.resolvePhase_cases with e | ⟨-, i, ho, e⟩
  · rw [e]
  · have hl : i.isLive = c.pipeline.slots.decode.isLive := congrArg (fun o => o.isLive) ho
    have hf : i.flags = c.pipeline.slots.decode.flags := congrArg (fun o => o.flags) ho
    rw [flagged_eq, flagged_eq, e]
    simp only [List.filter_cons, List.filter_nil, hl]
    cases c.pipeline.slots.decode.isLive <;> simp [hf]

theorem flagged_fetchPhase (c : Core) : c.fetchPhase.flagged = c.flagged := by
  obtain ⟨_, _, _, _, e⟩ := fetchPhase_shape c
  rw [e]
  rfl

theorem mem_flagged {i : Instruction}
    (hi : i ∈ [c.pipeline.slots.memory, c.pipeline.slots.execute, c.pipeline.slots.decode])
    (hl : i.isLive = true) : i.flags ∈ c.flagged :=
  List.mem_map_of_mem (List.mem_filter.mpr ⟨hi, hl⟩)

/-- What waits and what is in front of it. -/
theorem flagged_holdPhase (c : Core) (k : Hold) :
    (c.retireHalf.holdPhase k).flagged.Sublist c.flagged := by
  have h := map_of_outlines (·.flags) (fun _ => rfl) (c.outline_holdPhase k)
  rw [List.map_append] at h
  refine List.Sublist.trans ?_ (c.leftOver_sublist.map _)
  rw [← h]
  exact List.sublist_append_right _ _

/-- What has moved on, with what decode has taken over behind it. -/
theorem flagged_moved
    (he : d.pipeline.slots.execute = c.retireHalf.executePhase.pipeline.slots.execute)
    (hm : d.pipeline.slots.memory = c.retireHalf.pipeline.slots.memory) :
    d.flagged.Sublist (c.leftOver.map (·.flags)
      ++ ([d.pipeline.slots.decode].filter (·.isLive)).map (·.flags)) := by
  have h := map_of_outlines (·.flags) (fun _ => rfl) (c.outline_moved he hm)
  rw [List.map_append, List.map_append] at h
  rw [← h]
  exact List.sublist_append_right _ _

/-- Decode has taken over nothing. -/
theorem flagged_emptied
    (he : d.pipeline.slots.execute = c.retireHalf.executePhase.pipeline.slots.execute)
    (hm : d.pipeline.slots.memory = c.retireHalf.pipeline.slots.memory)
    (hd : d.pipeline.slots.decode.isLive = false) :
    d.flagged.Sublist (c.leftOver.map (·.flags)) := by
  have h := flagged_moved he hm
  rwa [List.filter_cons_of_neg (by simp [hd]), List.filter_nil, List.map_nil,
    List.append_nil] at h

/-- Decode has taken over a word. -/
theorem flagged_taken {i : Instruction} (hl : i.isLive = true)
    (he : d.pipeline.slots.execute = c.retireHalf.executePhase.pipeline.slots.execute)
    (hm : d.pipeline.slots.memory = c.retireHalf.pipeline.slots.memory) :
    ((d.dispatch i).setDecode i).resolvePhase.fetchPhase.flagged.Sublist
      (c.leftOver.map (·.flags) ++ [i.flags]) := by
  have hs : ((d.dispatch i).setDecode i).pipeline.slots = { d.pipeline.slots with decode := i } :=
    congrArg (fun slots : Slots => { slots with decode := i }) (slots_dispatch d i)
  have h := flagged_moved (c := c) (d := (d.dispatch i).setDecode i) (by rw [hs]; exact he)
    (by rw [hs]; exact hm)
  rw [hs, List.filter_cons_of_pos hl] at h
  rw [flagged_fetchPhase, flagged_resolvePhase]
  exact h

end Flagged

section HaltWord

/-- Behind a halt word that is about to retire there is nothing. -/
theorem Sealed.alone (h : c.Sealed) (hm : c.pipeline.slots.memory.ends = true) :
    c.pipeline.slots.execute.isLive = false ∧ c.pipeline.slots.decode.isLive = false ∧
      c.AtRest := by
  obtain ⟨hlive, hhalt⟩ := (Bool.and_eq_true _ _).mp hm
  have hlast := h.last
  rw [flagged, inFlight, List.filter_cons_of_pos hlive, List.map_cons, List.pairwise_cons] at hlast
  have hnone : ∀ i ∈ [c.pipeline.slots.execute, c.pipeline.slots.decode], i.isLive = false := by
    intro i hi
    refine Bool.eq_false_iff.mpr fun hl => ?_
    have hfront := hlast.1 i.flags (List.mem_map_of_mem (List.mem_filter.mpr ⟨hi, hl⟩))
    exact absurd (hfront.symm.trans hhalt) (by decide)
  exact ⟨hnone _ (by simp), hnone _ (by simp), h.rest ⟨_, mem_flagged (by simp) hlive, hhalt⟩⟩

end HaltWord

section Resting

theorem AtRest.congr (h : c.AtRest) (hs : d.pipeline.slots.fetch = c.pipeline.slots.fetch)
    (hc : d.pipeline.control = c.pipeline.control) : d.AtRest :=
  ⟨hs.trans h.slot, hc ▸ h.redirect, hc ▸ h.pending, hc ▸ h.halted⟩

/-- Nothing that fetch rests for is about to change. -/
theorem AtRest.of_fetchPhase (hr : c.pipeline.control.redirect = none)
    (hp : c.pipeline.control.controlPending = false)
    (hh : c.pipeline.control.fetchHalted = true) : c.fetchPhase.AtRest := by
  rw [show c.fetchPhase = _ from if_pos hh]
  exact ⟨rfl, hr, hp, hh⟩

/-- Fetch comes to rest in the cycle in which the halt word is decoded. -/
theorem AtRest.of_dispatch (hr : c.pipeline.control.redirect = none)
    (hp : c.pipeline.control.controlPending = false) {i : Instruction}
    (hl : i.flags.legal = true) (hh : i.flags.halt = true) :
    ((c.dispatch i).setDecode i).resolvePhase.fetchPhase.AtRest := by
  have e : c.dispatch i =
      { c with pipeline.control := { c.pipeline.control with fetchHalted := true } } := by
    unfold dispatch
    rw [hl, hh]
    rfl
  rw [e, resolvePhase_of_not_pending]
  · exact of_fetchPhase hr hp rfl
  · exact hp

end Resting

section Dispatch

theorem pending_raise (c : Core) :
    c.raise.pipeline.control.controlPending = c.pipeline.control.controlPending := by
  unfold raise
  dsimp only
  split <;> rfl

/-- In decode only an instruction waits for operands. -/
theorem pending_dispatch (hp : c.pipeline.control.controlPending = false) {i : Instruction}
    (h : (c.dispatch i).pipeline.control.controlPending = true) : i.flags.legal = true := by
  unfold dispatch at h
  split at h
  · exact absurd (hp.symm.trans ((pending_raise c).symm.trans h)) (by decide)
  next hl => simpa using hl

/-- What is still waiting is what has been waiting. -/
theorem waiting_resolvePhase
    (h : c.pipeline.control.controlPending = true → c.pipeline.slots.decode.flags.legal = true)
    (hp : c.resolvePhase.pipeline.control.controlPending = true) :
    c.resolvePhase.pipeline.slots.decode.flags.legal = true := by
  rcases c.resolvePhase_cases with e | ⟨-, i, -, e⟩
  · rw [e] at hp ⊢
    exact h hp
  · rw [e] at hp
    cases hp

theorem waiting_dispatch (hp : c.pipeline.control.controlPending = false) {i : Instruction} :
    ((c.dispatch i).setDecode i).resolvePhase.fetchPhase.pipeline.control.controlPending = true →
      ((c.dispatch i).setDecode i).resolvePhase.fetchPhase.pipeline.slots.decode.flags.legal =
        true := by
  obtain ⟨_, _, _, _, e⟩ := fetchPhase_shape ((c.dispatch i).setDecode i).resolvePhase
  rw [e]
  exact waiting_resolvePhase (c := (c.dispatch i).setDecode i) (pending_dispatch hp)

end Dispatch

section Cycle

/-- While nothing is added to what is in flight, fetch stays at rest. -/
theorem Sealed.of_sublist (h : c.Sealed) (hsub : d.flagged.Sublist c.flagged)
    (hrest : c.AtRest → d.AtRest)
    (hwaiting : d.pipeline.control.controlPending = true →
      d.pipeline.slots.decode.flags.legal = true) : d.Sealed where
  words f hf := h.words f (hsub.subset hf)
  last := h.last.sublist hsub
  rest := by
    rintro ⟨f, hf, hhalt⟩
    exact hrest (h.rest ⟨f, hsub.subset hf, hhalt⟩)
  waiting := hwaiting

/-- What has moved on leaves nothing behind it. -/
theorem Sealed.of_emptied (h : c.Sealed)
    (he : d.pipeline.slots.execute = c.retireHalf.executePhase.pipeline.slots.execute)
    (hm : d.pipeline.slots.memory = c.retireHalf.pipeline.slots.memory)
    (hd : d.pipeline.slots.decode.isLive = false)
    (hp : d.pipeline.control.controlPending = false) (hrest : c.AtRest → d.AtRest) : d.Sealed :=
  h.of_sublist ((flagged_emptied he hm hd).trans (c.leftOver_sublist.map _)) hrest
    fun hp' => absurd (hp.symm.trans hp') (by decide)

theorem Sealed.resolvePhase (h : c.Sealed) : c.resolvePhase.Sealed := by
  refine h.of_sublist ?_ (fun ha => ?_) (waiting_resolvePhase h.waiting)
  · exact (flagged_resolvePhase c).symm ▸ List.Sublist.refl _
  · rw [resolvePhase_of_not_pending _ ha.pending]
    exact ha

theorem Sealed.fetchPhase (h : c.Sealed) : c.fetchPhase.Sealed := by
  refine h.of_sublist ?_ (fun ha => .of_fetchPhase ha.redirect ha.pending ha.halted) ?_
  · exact (flagged_fetchPhase c).symm ▸ List.Sublist.refl _
  · obtain ⟨_, _, _, _, e⟩ := fetchPhase_shape c
    rw [e]
    exact h.waiting

theorem Sealed.fetchWait (h : c.Sealed) : c.fetchWait.Sealed :=
  h.of_sublist (List.Sublist.refl _)
    (fun ha => ⟨ha.slot, ha.redirect, ha.pending, ha.halted⟩) h.waiting

/-- A new word takes its place behind the others. -/
theorem Sealed.of_taken (h : c.Sealed) {w : InstWord}
    (hsub : d.flagged.Sublist (c.flagged ++ [w.flags])) (hfront : ∀ f ∈ c.flagged, f.halt = false)
    (hrest : w.flags.halt = true → d.AtRest)
    (hwaiting : d.pipeline.control.controlPending = true →
      d.pipeline.slots.decode.flags.legal = true) : d.Sealed where
  words f hf := by
    rcases List.mem_append.mp (hsub.subset hf) with hf | hf
    · exact h.words f hf
    · exact ⟨w, List.mem_singleton.mp hf⟩
  last := by
    refine List.Pairwise.sublist hsub (List.pairwise_append.mpr ⟨h.last, ?_, ?_⟩)
    · exact List.pairwise_singleton _ _
    · exact fun f hf _ _ => hfront f hf
  rest := by
    rintro ⟨f, hf, hhalt⟩
    rcases List.mem_append.mp (hsub.subset hf) with hf | hf
    · exact absurd ((hfront f hf).symm.trans hhalt) (by decide)
    · exact hrest (List.mem_singleton.mp hf ▸ hhalt)
  waiting := hwaiting

/-- An access that fails is that of a live load or store. -/
theorem access_of_faults (hf : c.faults = true)
    (hclean : c.pipeline.slots.execute.memFault = false) :
    c.pipeline.slots.execute.isLive = true ∧
      (c.pipeline.slots.execute.flags.readsMem || c.pipeline.slots.execute.flags.writesMem) =
        true := by
  let i := c.pipeline.slots.execute.forwardStoreData c.pipeline.slots.memory
  obtain ⟨-, hflags, -, hi⟩ := forwardStoreData_fields c.pipeline.slots.execute
    c.pipeline.slots.memory
  have hi : i.memFault = false := hi.trans hclean
  have hfault : (c.writebackPhase.machine.memoryStage i).1.memFault = true := hf
  have haccess : Machine.accessesMemory i = true := by
    unfold Machine.memoryStage at hfault
    split at hfault
    · assumption
    · exact absurd (hi.symm.trans hfault) (by decide)
  rw [← hflags, ← isLive_forwardStoreData c.pipeline.slots.execute c.pipeline.slots.memory]
  simp only [Machine.accessesMemory, isLoad, isStore, Bool.and_eq_true, Bool.or_eq_true]
    at haccess ⊢
  exact ⟨haccess.1, haccess.2.imp (·.2) (·.2)⟩

/-- A cycle whose access raises the first exception leaves nothing in flight but the access. -/
theorem Sealed.flushing (h : c.Sealed) (hx : c.flushes = true)
    (hm : c.pipeline.control.memStall = 0) (hclean : c.pipeline.slots.execute.memFault = false)
    (hslot : c.pipeline.slots.fetch.isFetched = true ∨ c.pipeline.slots.fetch = .idle) :
    c.movingCycle.Sealed := by
  have hd := flushed_movingCycle hx hm hclean hslot
  obtain ⟨hlive, haccess⟩ := access_of_faults (Bool.and_eq_true_iff.mp hx).1 hclean
  obtain ⟨w, hw⟩ := h.words _ (mem_flagged (by simp) hlive)
  have hm : c.movingCycle.pipeline.slots.memory.flags = c.pipeline.slots.execute.flags := by
    refine (congrArg (·.flags) (issueHalf_slots c.retireHalf).2).trans ?_
    rw [slots_retireHalf]
    exact congrArg (·.flags) c.outline_accessPhase
  have hfilter : c.movingCycle.inFlight =
      [c.movingCycle.pipeline.slots.memory].filter (·.isLive) := by
    simp [inFlight, List.filter_cons, hd.execute, hd.decode]
  have hone : c.movingCycle.flagged.Sublist [w.flags] := by
    rw [flagged, hfilter, ← hw, ← hm]
    exact List.filter_sublist.map _
  rw [hw] at haccess
  exact {
    words := fun f hf => ⟨w, List.mem_singleton.mp (hone.subset hf)⟩
    last := (List.pairwise_singleton _ _).sublist hone
    rest := by
      rintro ⟨f, hf, hhalt⟩
      rw [List.mem_singleton.mp (hone.subset hf), (InstWord.legal_of_access haccess).2] at hhalt
      cases hhalt
    waiting := fun hp => absurd (hd.pending.symm.trans hp) (by decide) }

/-- A cycle in which no access fails. -/
theorem Sealed.moving (h : c.Sealed) (hf : c.faults = false)
    (hslot : c.pipeline.slots.fetch.isFetched = true ∨ c.pipeline.slots.fetch = .idle) :
    c.movingCycle.Sealed := by
  have hr := retireHalf_of_not_faults hf
  have hfetch : c.retireHalf.pipeline.slots.fetch = c.pipeline.slots.fetch := fetch_retireHalf c
  have hrest : c.AtRest → c.retireHalf.AtRest := by
    rw [hr]
    exact fun ha => ⟨ha.slot, ha.redirect, ha.pending, ha.halted⟩
  rw [movingCycle]
  cases c.retireHalf.course (by rw [hfetch]; exact hslot) with
  | held k _ e =>
    obtain ⟨_, -, -, es⟩ := holdPhase_shape c.retireHalf k
    have hheld : (c.retireHalf.holdPhase k).Sealed := by
      refine h.of_sublist (flagged_holdPhase c k) (fun ha => ?_) ?_
      · rw [es]
        exact (hrest ha).congr rfl rfl
      · rw [es, forward_shape, hr]
        exact h.waiting
    rw [e]
    exact hheld.resolvePhase.fetchWait
  | awaiting hk _ _ e =>
    have hempty : c.retireHalf.executePhase.awaitFetch.Sealed := by
      refine h.of_emptied rfl rfl rfl (MidCycle.not_held hk).1 fun ha => ?_
      exact (hrest ha).congr rfl rfl
    rw [e]
    exact hempty.fetchWait
  | turning target hk hredirect e =>
    have hempty : (c.retireHalf.executePhase.redirectPhase target).Sealed := by
      rw [redirectPhase_eq]
      refine h.of_emptied rfl rfl (discard_not_live _) (MidCycle.not_held hk).1 fun ha => ?_
      exact absurd (hredirect.symm.trans (hrest ha).redirect) (Option.some_ne_none _)
    rw [e]
    exact hempty.fetchPhase
  | vacant hk _ _ _ e =>
    have hempty : (c.retireHalf.executePhase.setDecode .idle).Sealed := by
      refine h.of_emptied rfl rfl rfl (MidCycle.not_held hk).1 fun ha => ?_
      exact (hrest ha).congr rfl rfl
    rw [e]
    exact hempty.fetchPhase
  | taking hk hredirect _ hi ed e =>
    have hw := decodedWord_spec hi
    have hpending := (MidCycle.not_held hk).1
    rw [e, ed]
    refine h.of_taken (w := c.retireHalf.decodedWord.raw) ?_ ?_ ?_ ?_
    · rw [← hw.flags]
      refine List.Sublist.trans (flagged_taken hw.live ?_ ?_)
        ((c.leftOver_sublist.map _).append_right _)
      · rfl
      · rfl
    · -- fetch is not at rest, since it holds a word
      intro f hf
      refine Bool.eq_false_iff.mpr fun hhalt => ?_
      have hidle := (h.rest ⟨f, hf, hhalt⟩).slot
      rw [hfetch, hidle] at hi
      cases hi
    · intro hhalt
      have hl : c.retireHalf.decodedWord.flags.legal = true := by
        rw [hw.flags, InstWord.flags_halt hhalt]
      have hh : c.retireHalf.decodedWord.flags.halt = true := by rw [hw.flags, hhalt]
      refine AtRest.of_dispatch ?_ ?_ hl hh
      · exact hredirect
      · exact hpending
    · refine waiting_dispatch ?_
      exact hpending

theorem Sealed.countCycle (h : c.Sealed) : c.countCycle.Sealed :=
  h.of_sublist (List.Sublist.refl _)
    (fun ha => ⟨ha.slot, ha.redirect, ha.pending, ha.halted⟩) h.waiting

/-- Nothing moves in a frozen cycle. -/
theorem Sealed.frozenCycle (h : c.Sealed) : c.frozenCycle.Sealed :=
  h.of_sublist (List.Sublist.refl _)
    (fun ha => ⟨ha.slot, ha.redirect, ha.pending, ha.halted⟩) h.waiting

/-- Every cycle that does not end the run keeps the halt word the last in flight. -/
theorem Sealed.tick {icache dcache : Geometry} (h : c.Sealed) (hc : c.Coherent icache dcache)
    (hrun : c.tick.pipeline.status.isTerminal = false) : c.tick.Sealed := by
  have hs := RunStatus.eq_success (running_of_tick hrun)
  rcases Nat.eq_zero_or_pos c.pipeline.control.memStall with hm | hm
  · rw [tick_of_moving hs hm] at hrun ⊢
    have hhalf : c.countCycle.retireHalf.pipeline.status.isTerminal = false :=
      Bool.eq_false_iff.mpr fun ht =>
        Bool.eq_false_iff.mp hrun ((onward_issueHalf c.countCycle.retireHalf).terminal ht)
    have hflush := (flushes_of_running hhalf).2
    cases hf : c.countCycle.faults with
    | true => exact h.countCycle.flushing (hflush.trans hf) hm hc.executeClean hc.slot
    | false => exact h.countCycle.moving hf hc.slot
  · rw [tick_of_frozen hs hm]
    exact h.countCycle.frozenCycle

theorem sealed_core (m : Machine) : m.core.Sealed := by
  have hnone : m.core.flagged = [] := rfl
  exact {
    words := fun f hf => absurd (hnone ▸ hf) List.not_mem_nil
    last := by rw [hnone]; exact List.Pairwise.nil
    rest := fun ⟨f, hf, _⟩ => absurd (hnone ▸ hf) List.not_mem_nil
    waiting := nofun }

theorem Sealed.run {icache dcache : Geometry} (h : c.Sealed) (hc : c.Coherent icache dcache)
    (n : Nat)
    (hrun : (runTicks n c).pipeline.status.isTerminal = false) : (runTicks n c).Sealed := by
  induction n with
  | zero => exact h
  | succ n ih =>
    rw [runTicks_one_more] at hrun ⊢
    exact (ih (running_of_tick hrun)).tick (hc.run n (running_of_tick hrun)) hrun

end Cycle

end Core

end FiveStage
