import FiveStage.Proofs.Execution
import FiveStage.Proofs.PreciseState

/-! # Steps that fail

A step is atomic: either the whole effect of one instruction is there, or nothing but the count of
instructions, the next number and perhaps the count of exceptions has changed
(`step_all_or_nothing`). A step that has failed fails again in the same way, since all that an
instruction sees of the machine is the same as before. -/

namespace FiveStage

open Instruction

namespace Instruction

/-- The record of a step that has not taken effect: an illegal word, the halt word, or an access
outside the memory. -/
def Failed (i : Instruction) : Prop :=
  i.flags.legal = false ∨ i.flags.halt = true ∨ i.memFault = true

instance (i : Instruction) : Decidable i.Failed := inferInstanceAs (Decidable (_ ∨ _ ∨ _))

theorem stepEnd_completed_iff {i : Instruction} : i.stepEnd = .completed ↔ ¬ i.Failed := by
  unfold stepEnd Failed
  cases i.flags.legal <;> cases i.memFault <;> cases i.flags.halt <;> simp

/-- A store puts the low bytes of its second operand at its address, all of them inside the memory,
and changes no other byte. -/
structure StoresInto (i : Instruction) (m d : Memory) : Prop where
  isStore : i.isStore = true
  fits : m.Contains i.memAddress i.width.bytes
  base : d.base = m.base
  size : d.size = m.size
  cell : ∀ a, d.cell a =
    if i.memAddress.toNat ≤ a ∧ a < i.memAddress.toNat + i.width.bytes then
      UInt8.ofNat (i.op2.toNat / 256 ^ (a - i.memAddress.toNat))
    else m.cell a

/-- A machine behind the effect of one instruction: the program counter is at its successor, and
either its destination, if it has one, holds its result, or the bytes of its store are in memory.
All other registers and bytes are the same, as are the caches. -/
structure TakesEffect (i : Instruction) (m d : Machine) : Prop where
  pc : d.pc = i.nextPc
  icache : d.icache = m.icache
  dcache : d.dcache = m.dcache
  nextId : d.nextId = m.nextId + 1
  counters : d.counters = { m.counters with instructions := m.counters.instructions + 1 }
  written : (d.memory = m.memory ∧
      ∀ k, d.regs.read k = if i.dest = some k then i.result else m.regs.read k) ∨
    (d.regs = m.regs ∧ i.StoresInto m.memory d.memory)

end Instruction

namespace Machine

variable {m : Machine}

/-- What a step returns depends on registers, program counter and memory, and on nothing else but
for the number. -/
theorem step_fst_congr {d : Machine} (hregs : d.regs = m.regs) (hpc : d.pc = m.pc)
    (hmem : d.memory = m.memory) : d.step.1 = { m.step.1 with id := d.nextId } := by
  rw [step_fst, step_fst, hregs, hpc, hmem]
  unfold prepared
  rw [withAddress_eq, withAddress_eq, accessed_eq, accessed_eq]
  rfl

theorem id_step (m : Machine) : m.step.1.id = m.nextId := m.id_executed 0

/-- The halt word has not failed in any other way. -/
theorem stepEnd_of_halt (h : m.step.1.flags.halt = true) : m.step.1.stepEnd = .halted := by
  rw [flags_step] at h
  have hl : m.current.flags.legal = true := by
    have hflags : m.current.flags = { legal := true, halt := true } := InstWord.flags_halt h
    rw [hflags]
  rw [step_of_halt hl h]
  exact stepEnd_halted_iff.mpr ⟨⟨hl, rfl⟩, h⟩

/-- A failing step leaves nothing behind but its counts. -/
theorem step_snd_of_fails (h : m.step.1.Failed) :
    m.step.2 = { m with
      nextId := m.nextId + 1
      counters := { m.counters with
        instructions := m.counters.instructions + 1
        exceptions := m.counters.exceptions + if m.step.1.flags.halt then 0 else 1 } } := by
  cases hend : m.step.1.stepEnd with
  | completed => exact absurd h (stepEnd_completed_iff.mp hend)
  | halted =>
    rw [step_snd_of_halted hend, (stepEnd_halted_iff.mp hend).2]
    rfl
  | failed =>
    have hhalt : m.step.1.flags.halt = false :=
      Bool.eq_false_iff.mpr fun hh => absurd (stepEnd_of_halt hh) (by simp [hend])
    rw [step_snd_of_failed hend, hhalt]
    rfl

/-- Outside the memory there is no instruction. -/
theorem illegal_of_unmapped (h : ¬ m.memory.Contains m.pc 4) : m.step.1.flags.legal = false := by
  have hflags : m.current.flags = (m.fetchWord m.pc).flags := rfl
  rw [flags_step, hflags, fetchWord, if_neg h]
  decide

theorem step_storesInto (h : m.step.1.stepEnd = .completed)
    (hs : m.step.1.flags.writesMem = true) : m.step.1.StoresInto m.memory m.step.2.memory := by
  obtain ⟨hafter, hfits⟩ := step_snd_of_completed h
  have hflags : m.step.1.flags = (m.fetchWord m.pc).flags := flags_step m
  have hr : m.step.1.flags.readsMem = false :=
    hflags ▸ (InstWord.flags_store _ (hflags ▸ hs)).1
  have hmem : m.step.2.memory =
      m.memory.write m.step.1.memAddress
        (toLittleEndian m.step.1.width.bytes m.step.1.op2.toNat) := by
    rw [hafter]
    show m.step.1.stored m.memory = _
    rw [stored, hr, hs]
    rfl
  have hin := hfits (.inr hs)
  refine ⟨?_, hin, ?_, ?_, fun a => ?_⟩
  · rw [isStore, (legal_of_completed h).1, hs]
    rfl
  · rw [hmem, Memory.base_write]
  · rw [hmem, Memory.size_write]
  · rw [hmem, m.memory.cell_store hin]

theorem step_takesEffect (h : m.step.1.stepEnd = .completed) : m.step.1.TakesEffect m m.step.2 := by
  obtain ⟨hafter, -⟩ := step_snd_of_completed h
  have hflags : m.step.1.flags = (m.fetchWord m.pc).flags := flags_step m
  refine ⟨by rw [hafter], by rw [hafter]; rfl, by rw [hafter]; rfl, by rw [hafter]; rfl,
    by rw [hafter]; rfl, ?_⟩
  cases hs : m.step.1.flags.writesMem with
  | true =>
    have hstore := step_storesInto h hs
    refine .inr ⟨?_, hstore⟩
    rw [hafter]
    exact commit_of_dest_none (dest_of_store hflags hstore.isStore) _
  | false =>
    have hrd : m.step.1.rd < registerCount := by
      rw [step_fst, accessed_rd, prepared_rd]
      exact rd_lt _
    refine .inl ⟨?_, fun k => ?_⟩
    · rw [hafter]
      show m.step.1.stored m.memory = m.memory
      simp [stored, hs]
    · rw [hafter]
      exact read_commit (writesRegister_of_rd hrd) m.regs k

end Machine

/-- A step takes effect as a whole or not at all. If it returns the halt word, an illegal word or an
access outside the memory, the machine is the one before but for the count of instructions, the next
number and, except for the halt word, the count of exceptions, and the next step returns the same
record under the next number; so does a fetch outside the memory. Otherwise at most one register, or
the bytes of one store, and the program counter have new values. -/
theorem step_all_or_nothing (m : Machine) :
    (m.step.1.Failed →
      m.step.2 = { m with
        nextId := m.nextId + 1
        counters := { m.counters with
          instructions := m.counters.instructions + 1
          exceptions := m.counters.exceptions + if m.step.1.flags.halt then 0 else 1 } } ∧
      m.step.2.step.1 = { m.step.1 with id := m.step.1.id + 1 }) ∧
    (¬ m.memory.Contains m.pc 4 → m.step.1.flags.legal = false) ∧
    (¬ m.step.1.Failed → m.step.1.TakesEffect m m.step.2) := by
  refine ⟨fun h => ?_, Machine.illegal_of_unmapped, fun h => ?_⟩
  · have hafter := Machine.step_snd_of_fails h
    refine ⟨hafter, ?_⟩
    rw [Machine.step_fst_congr (d := m.step.2) (m := m) (by rw [hafter]) (by rw [hafter])
      (by rw [hafter]), Machine.nextId_step, Machine.id_step]
  · exact Machine.step_takesEffect (Instruction.stepEnd_completed_iff.mpr h)

/-- A machine with some words as its memory and 2 in register 5. -/
def Machine.holding (words : List InstWord) : Machine :=
  .ofConfig {} (.ofWords 0 words) (Registers.zero.write 5 2)

/-- A doubleword does not fit into a memory of one word, and behind the last instruction there is
none. With one more word the same store fits. -/
theorem step_all_or_nothing_doubleword :
    let storing := Machine.holding [0x00503023]
    let loading := Machine.holding [0x0002B283]
    let fetching := { Machine.holding [0x00503023] with pc := 2 }
    let fitting := Machine.holding [0x00503023, 0]
    (storing.step.1.Failed ∧ storing.step.2.memory = storing.memory ∧
      storing.step.2.step.1 = { storing.step.1 with id := storing.step.1.id + 1 }) ∧
    (loading.step.1.Failed ∧ loading.step.2.regs = loading.regs ∧
      loading.step.2.counters.exceptions = 1) ∧
    (fetching.step.1.Failed ∧ fetching.step.2.pc = 2) ∧
    ¬ fitting.step.1.Failed ∧ fitting.step.1.TakesEffect fitting fitting.step.2 := by
  intro storing loading fetching fitting
  have hstoring : storing.step.1.Failed := by decide +kernel
  have hloading : loading.step.1.Failed := by decide +kernel
  have hfitting : ¬ fitting.step.1.Failed := by decide +kernel
  obtain ⟨hstore, -, -⟩ := step_all_or_nothing storing
  obtain ⟨hload, -, -⟩ := step_all_or_nothing loading
  obtain ⟨hfetch, hunmapped, -⟩ := step_all_or_nothing fetching
  have hfetching : fetching.step.1.Failed := .inl (hunmapped (by decide +kernel))
  refine ⟨⟨hstoring, ?_, (hstore hstoring).2⟩, ⟨hloading, ?_, ?_⟩, ⟨hfetching, ?_⟩, hfitting,
    (step_all_or_nothing fitting).2.2 hfitting⟩
  · rw [(hstore hstoring).1]
  · rw [(hload hloading).1]
  · rw [(hload hloading).1]
    decide +kernel
  · rw [(hfetch hfetching).1]

end FiveStage
