import FiveStage.Proofs.GuardedUnits
import FiveStage.Proofs.Integers

/-! # The memory as a little-endian array of bytes

Every operation that writes to the memory writes its bytes to consecutive addresses, all of them if
they fit and none otherwise (`Memory.Writes`); what is read back anywhere is the number that the
bytes at its addresses spell, whether they were written together or not (`memory_little_endian`). -/

namespace FiveStage

/-- The low bytes of a number, the lowest first. -/
def lowBytes (n v : Nat) : List UInt8 := (List.range n).map fun k => UInt8.ofNat (v / 256 ^ k)

theorem length_lowBytes (n v : Nat) : (lowBytes n v).length = n := by simp [lowBytes]

theorem toLittleEndian_eq (n v : Nat) : toLittleEndian n v = lowBytes n v := by
  refine List.ext_getElem? fun k => ?_
  rcases Nat.lt_or_ge k n with hk | hk
  · rw [getElem?_toLittleEndian v hk]
    simp [lowBytes, hk]
  · rw [List.getElem?_eq_none (by rwa [length_toLittleEndian]),
      List.getElem?_eq_none (by rwa [length_lowBytes])]

/-- A number as a load with a given minor opcode widens it: the signed loads narrower than a word
take its highest bit for the sign. -/
def widened (f3 n : Nat) : Word :=
  if f3 < 3 then .ofInt 64 (Int.bmod n (2 ^ (8 * 2 ^ f3))) else .ofNat 64 n

theorem extendLoaded_ofNat (f3 n : Nat) : extendLoaded f3 (.ofNat 64 n) = widened f3 n := by
  match f3 with
  | 0 | 1 | 2 => exact Word.signExtend_setWidth_ofNat (by decide) n
  | f3 + 3 => exact (if_neg (by omega)).symm

namespace Memory

/-- The memory that an operation leaves behind. One that fails yields none, and the old one
stays. -/
def after (m : Memory) (r : Except MemoryError Memory) : Memory := r.toOption.getD m

/-- An operation with a given outcome writes bytes to the addresses from `addr` on: all of them if
they fit, and none otherwise. -/
structure Writes (m : Memory) (addr : Word) (data : List UInt8) (r : Except MemoryError Memory) :
    Prop where
  outcome : r = if m.Contains addr data.length then .ok (m.after r)
    else .error (.outOfBounds addr data.length)
  base : (m.after r).base = m.base
  size : (m.after r).size = m.size
  cell : ∀ a, (m.after r).cell a =
    if m.Contains addr data.length ∧ addr.toNat ≤ a ∧ a < addr.toNat + data.length then
      (data[a - addr.toNat]?).getD 0
    else m.cell a

variable (m : Memory) (addr : Word)

theorem writes_place (data : List UInt8) : m.Writes addr data (m.place addr data) := by
  unfold place
  by_cases h : m.Contains addr data.length
  · rw [if_pos h]
    refine ⟨(if_pos h).symm, rfl, size_write m addr data, fun a => ?_⟩
    simp only [h, true_and]
    exact cell_write m h a
  · rw [if_neg h]
    exact ⟨(if_neg h).symm, rfl, rfl, fun a => (if_neg fun hin => h hin.1).symm⟩

theorem writes_store (w : Width) (v : Word) :
    m.Writes addr (lowBytes w.bytes v.toNat) (m.store addr w v) := by
  rw [← toLittleEndian_eq]
  exact m.writes_place addr _

theorem writes_placeWords (words : List InstWord) :
    m.Writes addr (words.flatMap fun w => lowBytes 4 w.toNat) (m.placeWords addr words) := by
  simp only [← toLittleEndian_eq]
  exact m.writes_place addr _

/-- A read yields the number that the bytes at its addresses spell. -/
theorem load_eq (w : Width) :
    m.load addr w = if m.Contains addr w.bytes then .ok (.ofNat 64 (m.number addr.toNat w.bytes))
      else .error (.outOfBounds addr w.bytes) := by
  unfold load
  by_cases h : m.Contains addr w.bytes
  · rw [if_pos h, if_pos h, m.value_eq h]
  · rw [if_neg h, if_neg h]

theorem ofBytes?_bytes (w : Width) : Width.ofBytes? w.bytes = some w := by cases w <;> rfl

theorem ofBytes?_eq_none {n : Nat} (h : ∀ w : Width, n ≠ w.bytes) : Width.ofBytes? n = none := by
  unfold Width.ofBytes?
  split
  · exact absurd rfl (h .byte)
  · exact absurd rfl (h .half)
  · exact absurd rfl (h .word)
  · exact absurd rfl (h .double)
  · rfl

end Memory

namespace Instruction

variable {i : Instruction} (m : Memory)

/-- A load reads at its address, and widens what it has read. -/
theorem access_load (hr : i.flags.readsMem = true) :
    i.access m = if m.Contains i.memAddress i.width.bytes then
        .ok (widened i.funct3 (m.number i.memAddress.toNat i.width.bytes), m)
      else .error (.outOfBounds i.memAddress i.width.bytes) := by
  unfold access
  by_cases h : m.Contains i.memAddress i.width.bytes
  · have hfit : i.Fits m := fun _ => h
    rw [if_pos h, if_pos hfit, loaded, stored, hr, if_pos rfl, m.value_eq h, extendLoaded_ofNat]
    rfl
  · rw [if_neg h, if_neg fun hfit => h (hfit (.inl hr))]
    rfl

/-- A store writes its second operand at its address. -/
theorem access_store (hr : i.flags.readsMem = false) (hw : i.flags.writesMem = true) :
    i.access m = (m.store i.memAddress i.width i.op2).map fun m' => (0, m') := by
  unfold access Memory.store Memory.place
  rw [length_toLittleEndian]
  by_cases h : m.Contains i.memAddress i.width.bytes
  · have hfit : i.Fits m := fun _ => h
    rw [if_pos h, if_pos hfit, loaded, stored, hr, hw]
    rfl
  · rw [if_neg h, if_neg fun hfit => h (hfit (.inr hw))]
    rfl

end Instruction

/-- The memory is a little-endian array of bytes. A write puts the low bytes of its value, the bytes
of an image or the words of a program at consecutive addresses, all of them or none; afterwards a
read or a load of any width anywhere yields the number that the bytes at its addresses spell, a load
with the sign that its minor opcode asks for. What does not fit fails with its address and its
width, as does every count of bytes that is no width, and 64 bits are enough to find this out. -/
theorem memory_little_endian (m : Memory) (addr : Word) (w : Width) (v : Word) :
    m.Writes addr (lowBytes w.bytes v.toNat) (m.store addr w v) ∧
    (∀ data, m.Writes addr data (m.place addr data)) ∧
    (∀ words, m.Writes addr (words.flatMap fun w => lowBytes 4 w.toNat)
      (m.placeWords addr words)) ∧
    (∀ d : Memory, d = m ∨ d = m.after (m.store addr w v) →
      (∀ addr' w', d.load addr' w' =
        if m.Contains addr' w'.bytes then .ok (.ofNat 64 (d.number addr'.toNat w'.bytes))
        else .error (.outOfBounds addr' w'.bytes)) ∧
      ∀ i : Instruction, i.flags.readsMem = true →
        i.access d = if m.Contains i.memAddress i.width.bytes then
            .ok (widened i.funct3 (d.number i.memAddress.toNat i.width.bytes), d)
          else .error (.outOfBounds i.memAddress i.width.bytes)) ∧
    (∀ i : Instruction, i.flags.readsMem = false → i.flags.writesMem = true →
      i.access m = (m.store i.memAddress i.width i.op2).map fun m' => (0, m')) ∧
    (∀ w : Width, m.loadBytes addr w.bytes = m.load addr w ∧
      m.storeBytes addr w.bytes v = m.store addr w v) ∧
    (∀ n, n ≠ 1 → n ≠ 2 → n ≠ 4 → n ≠ 8 → m.loadBytes addr n = .error (.unsupportedWidth n) ∧
      m.storeBytes addr n v = .error (.unsupportedWidth n) ∧
      m.after (m.storeBytes addr n v) = m) ∧
    (m.size < 2 ^ 64 → Guarded.load m addr w = .ok (m.load addr w) ∧
      Guarded.store m addr w v = .ok (m.store addr w v)) := by
  have hstore := m.writes_store addr w v
  refine ⟨hstore, m.writes_place addr, m.writes_placeWords addr, ?_,
    fun i => Instruction.access_store m, fun w => ?_, fun n h1 h2 h4 h8 => ?_,
    fun hm => ⟨Guarded.load_eq m addr hm w, Guarded.store_eq m addr hm w v⟩⟩
  · intro d hd
    have hcontains : ∀ addr' n, d.Contains addr' n ↔ m.Contains addr' n := by
      intro addr' n
      rcases hd with rfl | rfl
      · rfl
      · rw [Memory.Contains, hstore.base, hstore.size, Memory.Contains]
    refine ⟨fun addr' w' => ?_, fun i hr => ?_⟩
    · rw [d.load_eq]
      simp only [hcontains]
    · rw [Instruction.access_load d hr]
      simp only [hcontains]
  · rw [Memory.loadBytes, Memory.storeBytes, Memory.ofBytes?_bytes]
    exact ⟨rfl, rfl⟩
  · have hnone : Width.ofBytes? n = none :=
      Memory.ofBytes?_eq_none fun w => by cases w <;> assumption
    rw [Memory.loadBytes, Memory.storeBytes, hnone]
    exact ⟨rfl, rfl, rfl⟩

/-- A word written over the end of another: three of its bytes stay. -/
theorem memory_little_endian_overlapping :
    let m : Memory := .zeros 0x1000 16
    let d := m.after (m.store 0x1003 .word 0xFFEEDDCC)
    (m.store 0x1003 .word 0xFFEEDDCC = .ok d) ∧
      (d.load 0x1000 .word = .ok (.ofNat 64 (d.number 0x1000 4)) ∧ d.number 0x1000 4 = 0xCC000000) ∧
      m.store 0x100D .word 7 = .error (.outOfBounds 0x100D 4) ∧
      Guarded.store m 0x1003 .word 0xFFEEDDCC = .ok (.ok d) := by
  intro m d
  obtain ⟨hstore, -, -, hread, -, -, -, hguard⟩ := memory_little_endian m 0x1003 .word 0xFFEEDDCC
  obtain ⟨hout, -⟩ := memory_little_endian m 0x100D .word 7
  have hok : m.store 0x1003 .word 0xFFEEDDCC = .ok d :=
    hstore.outcome.trans (if_pos (by decide +kernel))
  refine ⟨hok, ⟨((hread d (.inr rfl)).1 0x1000 .word).trans (if_pos (by decide +kernel)), ?_⟩,
    hout.outcome.trans (if_neg (by decide +kernel)), ?_⟩
  · decide +kernel
  · rw [(hguard (by decide +kernel)).2, hok]

end FiveStage
