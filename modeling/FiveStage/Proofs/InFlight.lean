import FiveStage.Proofs.Phases

/-! # Instructions in flight

The live instructions behind fetch, from memory to decode, are those that have been decoded and have
not retired. A moving cycle shifts them by one slot and changes none of their outlines: what it
retires together with what it leaves in flight is what was in flight before it, less an instruction
that a failing access throws away, and with a newly decoded instruction at the end
(`outline_holdPhase`, `outline_moved`). -/

namespace FiveStage

open Instruction

namespace Instruction

/-- What of an instruction no stage behind decode changes. -/
def outline (i : Instruction) : Instruction :=
  { pc := i.pc
    raw := i.raw
    opcode := i.opcode
    flags := i.flags
    nextPc := i.nextPc
    id := i.id
    status := i.status }

theorem outline_forward (i producer : Instruction) (source : ForwardSource) :
    (i.forward producer source).outline = i.outline := by
  rw [forward_shape]
  rfl

theorem outline_executed (i : Instruction) : i.executed.outline = i.outline := by
  rw [executed_shape]
  rfl

theorem outline_forwardStoreData (i producer : Instruction) :
    (i.forwardStoreData producer).outline = i.outline := by
  unfold forwardStoreData
  split <;> rfl

theorem outline_memoryStage (m : Machine) (i : Instruction) :
    (m.memoryStage i).1.outline = i.outline := by
  unfold Machine.memoryStage
  (repeat' split) <;> rfl

/-- Outlines tell all that they show. -/
theorem map_of_outlines {α : Type} (f : Instruction → α) (hf : ∀ i, f i.outline = f i)
    {is js : List Instruction} (h : is.map outline = js.map outline) : is.map f = js.map f := by
  have hshown := congrArg (List.map f) h
  rw [List.map_map, List.map_map] at hshown
  exact (funext hf : f ∘ outline = f) ▸ hshown

end Instruction

/-- A slot with nothing in it that is thrown away stays as it is. -/
theorem isFetched_eq {i : Instruction} (h : i.status ≠ .speculative) : i.isFetched = i.isLive := by
  simp [isFetched, isLive, h]

namespace Core

variable (c : Core)

/-- The live instructions behind fetch, the oldest first. -/
def inFlight : List Instruction :=
  [c.pipeline.slots.memory, c.pipeline.slots.execute, c.pipeline.slots.decode].filter (·.isLive)

/-- The live instructions that the first half of a cycle leaves over: a failing access may throw
away the one in decode. -/
def leftOver : List Instruction :=
  [c.pipeline.slots.memory, c.pipeline.slots.execute,
    c.retireHalf.pipeline.slots.decode].filter (·.isLive)

theorem leftOver_eq :
    c.leftOver =
      [c.pipeline.slots.memory, c.pipeline.slots.execute].filter (·.isLive)
        ++ if c.flushes then [] else [c.pipeline.slots.decode].filter (·.isLive) := by
  rw [leftOver, slots_retireHalf]
  cases c.flushes with
  | true =>
    have := discard_not_live c.pipeline.slots.decode
    simp [List.filter_cons, this]
  | false => exact List.filter_append [_, _] [_]

theorem inFlight_eq :
    c.inFlight =
      [c.pipeline.slots.memory, c.pipeline.slots.execute].filter (·.isLive)
        ++ [c.pipeline.slots.decode].filter (·.isLive) :=
  List.filter_append [_, _] [_]

theorem leftOver_of_not_flushes (h : c.flushes = false) : c.leftOver = c.inFlight := by
  rw [leftOver_eq, inFlight_eq, h, if_neg (by simp)]

theorem leftOver_sublist : c.leftOver.Sublist c.inFlight := by
  rw [leftOver_eq, inFlight_eq]
  apply List.Sublist.append_left
  split
  · exact List.nil_sublist _
  · exact List.Sublist.refl _

/-- Live instructions have live outlines. -/
theorem map_outline_filter (is : List Instruction) :
    (is.filter (·.isLive)).map outline = (is.map outline).filter (·.isLive) :=
  (List.filter_map (p := fun i => i.isLive) (f := outline)).symm

theorem length_filter_live (i : Instruction) :
    ([i].filter (·.isLive)).length = i.isLive.toNat := by
  cases h : i.isLive <;> simp [h]

theorem outline_accessPhase :
    c.writebackPhase.accessPhase.pipeline.slots.memory.outline =
      c.pipeline.slots.execute.outline :=
  (outline_memoryStage _ _).trans (outline_forwardStoreData _ _)

/-- When the decoded instruction waits, what retires and what stays in flight is what was left
over. -/
theorem outline_holdPhase (k : Hold) :
    ([c.pipeline.slots.memory].filter (·.isLive) ++
        (c.retireHalf.holdPhase k).inFlight).map outline =
      c.leftOver.map outline := by
  obtain ⟨_, -, -, e⟩ := holdPhase_shape c.retireHalf k
  have hm : c.retireHalf.pipeline.slots.memory.outline = c.pipeline.slots.execute.outline := by
    rw [slots_retireHalf]
    exact c.outline_accessPhase
  rw [inFlight, leftOver, e, ← List.filter_append, map_outline_filter, map_outline_filter]
  simp only [List.cons_append, List.nil_append, List.map_cons, List.map_nil, hm, outline_forward]
  simp [List.filter_cons, isLive, outline, bubble]

/-- When the decoded instruction executes, what decode takes over is added at the end. -/
theorem outline_moved {d : Core}
    (he : d.pipeline.slots.execute = c.retireHalf.executePhase.pipeline.slots.execute)
    (hm : d.pipeline.slots.memory = c.retireHalf.pipeline.slots.memory) :
    ([c.pipeline.slots.memory].filter (·.isLive) ++ d.inFlight).map outline =
      (c.leftOver ++ [d.pipeline.slots.decode].filter (·.isLive)).map outline := by
  have h1 : c.retireHalf.pipeline.slots.memory.outline = c.pipeline.slots.execute.outline := by
    rw [slots_retireHalf]
    exact c.outline_accessPhase
  have h2 : c.retireHalf.executePhase.pipeline.slots.execute.outline =
      c.retireHalf.pipeline.slots.decode.outline :=
    (outline_executed _).trans ((outline_forward _ _ _).trans (outline_forward _ _ _))
  rw [inFlight, leftOver, ← List.filter_append, ← List.filter_append, map_outline_filter,
    map_outline_filter]
  simp only [List.cons_append, List.nil_append, List.map_cons, List.map_nil, he, hm, h1, h2]

/-- Resolving a branch or jump changes its operands and its successor. -/
theorem resolvePhase_cases :
    c.resolvePhase = c ∨
      c.pipeline.control.controlPending = true ∧ ∃ i : Instruction,
        i.outline = { c.pipeline.slots.decode.outline with nextPc := i.nextPc } ∧
        c.resolvePhase =
          { c with
            pipeline.slots := { c.pipeline.slots with decode := i }
            pipeline.control :=
              { c.pipeline.control with
                controlPending := false
                redirect :=
                  if i.nextPc ≠ i.fallThrough then some i.nextPc
                  else c.pipeline.control.redirect } } := by
  cases hr : (c.pipeline.control.controlPending &&
      controlReady c.pipeline.slots.decode c.pipeline.slots.execute c.pipeline.slots.memory) with
  | false => exact .inl (if_neg (Bool.eq_false_iff.1 hr))
  | true =>
    refine .inr ⟨((Bool.and_eq_true _ _).mp hr).1, _, ?_, if_pos hr⟩
    rw [forward_shape, forward_shape]
    rfl

/-- Nor does it change which instructions are in flight. -/
theorem ids_resolvePhase : c.resolvePhase.inFlight.map (·.id) = c.inFlight.map (·.id) := by
  rcases c.resolvePhase_cases with e | ⟨-, i, ho, e⟩
  · rw [e]
  · have hl : i.isLive = c.pipeline.slots.decode.isLive :=
      congrArg (fun o => o.isLive) ho
    have hid : i.id = c.pipeline.slots.decode.id := congrArg (fun o => o.id) ho
    rw [inFlight_eq, inFlight_eq, e]
    simp only [List.map_append, List.filter_cons, List.filter_nil, hl]
    cases c.pipeline.slots.decode.isLive <;> simp [hid]

end Core

end FiveStage
