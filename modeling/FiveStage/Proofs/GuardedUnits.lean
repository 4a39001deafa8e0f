import FiveStage.Machine.Basic
import FiveStage.MemoryAccess
import FiveStage.Arithmetic
import FiveStage.Proofs.Bytes
import FiveStage.Proofs.Forwarding
import FiveStage.Proofs.Geometry
import FiveStage.Proofs.Guarded
import FiveStage.Proofs.Traffic

/-! # Guarded units

The register file, the arithmetic unit, the memory and the caches, with every index, slice, copy and
shift guarded. A unit whose operands come from the decoder, from an array of 64-bit size or from a
cache of an accepted geometry (`Cache.Sound`) does not abort. -/

namespace FiveStage

namespace Guarded

section Registers

variable {i : Instruction} (regs : Registers)

/-- The value of a register. -/
def read (r : Nat) : Guarded Word :=
  if r < registerCount then .ok (regs.read r) else .error (.register r)

/-- Sets a register. -/
def write (r : Nat) (v : Word) : Guarded Registers :=
  if r < registerCount then .ok (regs.write r v) else .error (.register r)

/-- The instruction with the values of the registers it reads. -/
def withOperands (i : Instruction) : Guarded Instruction := do
  let op1 ← if i.flags.readsRs1 then read regs i.rs1 else .ok i.op1
  let op2 ← if i.flags.readsRs2 then read regs i.rs2 else .ok i.op2
  return { i with op1, op2 }

/-- The registers after an instruction has completed. -/
def commit (i : Instruction) : Guarded Registers :=
  match i.dest with
  | some rd => write regs rd i.result
  | none => .ok regs

theorem read_eq {r : Nat} (h : r < registerCount) : read regs r = .ok (regs.read r) := if_pos h

theorem write_eq {r : Nat} (v : Word) (h : r < registerCount) :
    write regs r v = .ok (regs.write r v) := if_pos h

theorem withOperands_eq (h1 : i.rs1 < registerCount) (h2 : i.rs2 < registerCount) :
    withOperands regs i = .ok (i.withOperands regs) := by
  rw [withOperands, read_eq regs h1, read_eq regs h2]
  unfold Instruction.withOperands
  cases i.flags.readsRs1 <;> cases i.flags.readsRs2 <;> rfl

theorem commit_eq (h : i.rd < registerCount) : commit regs i = .ok (i.commit regs) := by
  unfold commit Instruction.commit
  cases hd : i.dest with
  | none => rfl
  | some rd => exact write_eq regs _ (Instruction.writesRegister_of_rd h rd hd)

end Registers

section Arithmetic

/-- A shift of 64 bits by the low six bits of the amount, or of the low half of the word by the low
five. -/
def shift (op : ArithOp) (a b : Word) (word32 : Bool) : Guarded Word :=
  if word32 then do
    let low : BitVec 32 := a.setWidth 32
    let amount := (b &&& 0x1F).toNat
    let shifted ←
      match op with
      | .sll => shiftLeft low amount
      | .srl => shiftRight low amount
      | .sra => shiftRightSigned low amount
      | _ => .ok 0
    return shifted.signExtend 64
  else do
    let amount := (b &&& 0x3F).toNat
    match op with
    | .sll => shiftLeft a amount
    | .srl => shiftRight a amount
    | .sra => shiftRightSigned a amount
    | _ => .ok 0

/-- The operation on two operands; only its shifts can leave their domain. -/
def compute (op : ArithOp) (a b : Word) (word32 : Bool) : Guarded Word :=
  match op with
  | .sll | .srl | .sra => shift op a b word32
  | op => .ok (op.compute a b word32)

/-- The arithmetic result of an instruction. -/
def arithmetic (i : Instruction) : Guarded Word :=
  match i.class? with
  | some .op => compute (ArithOp.ofFunct3 i.funct3 i.raw.alternate) i.op1 i.op2 false
  | some .op32 => compute (ArithOp.ofFunct3 i.funct3 i.raw.alternate) i.op1 i.op2 true
  | some .opImm =>
    compute (ArithOp.ofFunct3 i.funct3 (i.raw.alternate && i.funct3 = 5)) i.op1 i.imm false
  | some .opImm32 =>
    compute (ArithOp.ofFunct3 i.funct3 (i.raw.alternate && i.funct3 = 5)) i.op1 i.imm true
  | _ => .ok i.compute

theorem shift_eq (op : ArithOp) (a b : Word) (word32 : Bool) :
    shift op a b word32 = .ok (op.shift a b word32) := by
  cases word32 with
  | true =>
    have hamount : (b &&& 0x1F).toNat = b.toNat % 32 := by
      rw [BitVec.toNat_and]
      exact Nat.and_two_pow_sub_one_eq_mod b.toNat 5
    have hlt : b.toNat % 32 < 32 := Nat.mod_lt _ (by decide)
    rw [shift, ArithOp.shift, if_pos rfl, if_pos rfl, hamount]
    cases op with
    | sll | srl | sra =>
      simp only [shiftLeft_eq hlt, shiftRight_eq hlt, shiftRightSigned_eq hlt, ok_bind, pure_eq]
    | _ => rfl
  | false =>
    have hamount : (b &&& 0x3F).toNat = b.toNat % 64 := by
      rw [BitVec.toNat_and]
      exact Nat.and_two_pow_sub_one_eq_mod b.toNat 6
    have hlt : b.toNat % 64 < 64 := Nat.mod_lt _ (by decide)
    rw [shift, ArithOp.shift, if_neg (by decide), if_neg (by decide), hamount]
    cases op with
    | sll | srl | sra => simp only [shiftLeft_eq hlt, shiftRight_eq hlt, shiftRightSigned_eq hlt]
    | _ => rfl

theorem compute_eq (op : ArithOp) (a b : Word) (word32 : Bool) :
    compute op a b word32 = .ok (op.compute a b word32) := by
  cases op with
  | sll => exact shift_eq .sll a b word32
  | srl => exact shift_eq .srl a b word32
  | sra => exact shift_eq .sra a b word32
  | _ => rfl

/-- No shift amount reaches the width of its operand. -/
theorem arithmetic_eq (i : Instruction) : arithmetic i = .ok i.compute := by
  unfold arithmetic Instruction.compute
  cases i.class? with
  | none => rfl
  | some o =>
    cases o with
    | op | op32 | opImm | opImm32 => exact compute_eq _ _ _ _
    | _ => rfl

end Arithmetic

section Memory

variable (m : Memory) (addr : Word)

/-- The places of the bytes at an address, if all of them are mapped. Neither the difference nor the
sum may leave 64 bits. -/
def range (n : Nat) : Except MemoryError (Nat × Nat) :=
  if addr.toNat < m.base.toNat then .error (.outOfBounds addr n)
  else if 2 ^ 64 ≤ m.offset addr + n then .error (.outOfBounds addr n)
  else if m.size < m.offset addr + n then .error (.outOfBounds addr n)
  else .ok (m.offset addr, m.offset addr + n)

/-- The bytes between two places of the memory. -/
def slice (start stop : Nat) : Guarded (List UInt8) :=
  if start ≤ stop ∧ stop ≤ m.size then .ok (m.slice start (stop - start))
  else .error (.slice start stop m.size)

/-- The memory with the bytes between two places replaced by others. -/
def replace (start stop : Nat) (bytes : List UInt8) : Guarded Memory :=
  if start ≤ stop ∧ stop ≤ m.size then
    if bytes.length = stop - start then
      .ok { m with bytes := Memory.setBytes m.bytes start bytes }
    else .error (.copy bytes.length (stop - start))
  else .error (.slice start stop m.size)

/-- The first bytes of a buffer. -/
def take (buffer : List UInt8) (n : Nat) : Guarded (List UInt8) :=
  if n ≤ buffer.length then .ok (buffer.take n) else .error (.slice 0 n buffer.length)

/-- A buffer with its first bytes replaced by others. -/
def fill (buffer : List UInt8) (n : Nat) (bytes : List UInt8) : Guarded (List UInt8) :=
  if n ≤ buffer.length then
    if bytes.length = n then .ok (bytes ++ buffer.drop n) else .error (.copy bytes.length n)
  else .error (.slice 0 n buffer.length)

/-- Reads the value at an address by way of a buffer of eight bytes. -/
def load (w : Width) : Guarded (Except MemoryError Word) :=
  match range m addr w.bytes with
  | .error e => .ok (.error e)
  | .ok (start, stop) => do
    let bytes ← slice m start stop
    let buffer ← fill (List.replicate 8 0) (stop - start) bytes
    return .ok (.ofNat 64 (ofLittleEndian buffer))

/-- Writes the first of the eight bytes of a value at an address. -/
def store (w : Width) (v : Word) : Guarded (Except MemoryError Memory) :=
  match range m addr w.bytes with
  | .error e => .ok (.error e)
  | .ok (start, stop) => do
    let bytes ← take (toLittleEndian 8 v.toNat) (stop - start)
    let m ← replace m start stop bytes
    return .ok m

/-- The access of a load or store. -/
def access (i : Instruction) : Guarded (Except MemoryError (Word × Memory)) :=
  if i.flags.readsMem then do
    let loaded ← load m i.memAddress i.width
    return loaded.map fun raw => (extendLoaded i.funct3 raw, m)
  else if i.flags.writesMem then do
    let stored ← store m i.memAddress i.width i.op2
    return stored.map fun m => (0, m)
  else .ok (.ok (0, m))

theorem range_eq (hm : m.size < 2 ^ 64) (n : Nat) :
    range m addr n =
      if m.Contains addr n then .ok (m.offset addr, m.offset addr + n)
      else .error (.outOfBounds addr n) := by
  unfold range
  by_cases hin : m.Contains addr n
  · obtain ⟨hlow, hhigh⟩ := id hin
    unfold Memory.offset
    rw [if_pos hin, if_neg (by omega), if_neg (by omega), if_neg (by omega)]
  · have hout : ¬ (m.base.toNat ≤ addr.toNat ∧ addr.toNat + n ≤ m.base.toNat + m.size) := hin
    rw [if_neg hin]
    split_ifs <;> first | rfl | (unfold Memory.offset at *; omega)

theorem offset_add_le {m : Memory} {addr : Word} {n : Nat} (h : m.Contains addr n) :
    m.offset addr + n ≤ m.size := by
  obtain ⟨hlow, hhigh⟩ := h
  unfold Memory.offset
  omega

theorem bytes_le (w : Width) : w.bytes ≤ 8 := by cases w <;> decide

theorem ofLittleEndian_zeros (n : Nat) : ofLittleEndian (List.replicate n 0) = 0 := by
  induction n with
  | zero => rfl
  | succ n ih => rw [List.replicate_succ, ofLittleEndian, ih]; rfl

theorem take_toLittleEndian {k n : Nat} (h : k ≤ n) (v : Nat) :
    (toLittleEndian n v).take k = toLittleEndian k v := by
  induction k generalizing n v with
  | zero => rfl
  | succ k ih =>
    obtain ⟨n, rfl⟩ := Nat.exists_eq_succ_of_ne_zero (n := n) (by omega)
    rw [toLittleEndian, toLittleEndian, List.take_succ_cons, ih (by omega)]

theorem load_eq (hm : m.size < 2 ^ 64) (w : Width) : load m addr w = .ok (m.load addr w) := by
  rw [load, range_eq m addr hm, Memory.load]
  by_cases hin : m.Contains addr w.bytes
  · have hslice : m.offset addr ≤ m.offset addr + w.bytes ∧ m.offset addr + w.bytes ≤ m.size :=
      ⟨Nat.le_add_right _ _, offset_add_le hin⟩
    have hlen : m.offset addr + w.bytes - m.offset addr = w.bytes := Nat.add_sub_cancel_left _ _
    simp only [if_pos hin, slice, if_pos hslice, ok_bind, fill, hlen, List.length_replicate,
      if_pos (bytes_le w), Memory.length_slice, if_true, pure_eq, List.drop_replicate,
      Memory.value]
    -- the rest of the buffer is zeros, which add nothing to the number
    rw [ofLittleEndian_append, ofLittleEndian_zeros, Nat.mul_zero, Nat.add_zero]
  · rw [if_neg hin, if_neg hin]

theorem store_eq (hm : m.size < 2 ^ 64) (w : Width) (v : Word) :
    store m addr w v = .ok (m.store addr w v) := by
  rw [store, range_eq m addr hm, Memory.store, Memory.place, length_toLittleEndian]
  by_cases hin : m.Contains addr w.bytes
  · have hslice : m.offset addr ≤ m.offset addr + w.bytes ∧ m.offset addr + w.bytes ≤ m.size :=
      ⟨Nat.le_add_right _ _, offset_add_le hin⟩
    have hlen : m.offset addr + w.bytes - m.offset addr = w.bytes := Nat.add_sub_cancel_left _ _
    simp only [if_pos hin, take, replace, hlen, length_toLittleEndian, if_pos (bytes_le w),
      ok_bind, take_toLittleEndian (bytes_le w), if_pos hslice, if_true, pure_eq]
    rfl
  · rw [if_neg hin, if_neg hin]

/-- An access reads and writes inside the memory and inside its buffer, or fails as a whole. -/
theorem access_eq (hm : m.size < 2 ^ 64) (i : Instruction) :
    access m i = .ok (i.access m) := by
  by_cases hc : m.Contains i.memAddress i.width.bytes <;>
    cases hr : i.flags.readsMem <;> cases hw : i.flags.writesMem <;>
    simp [access, load_eq m _ hm, store_eq m _ hm, Instruction.access, Instruction.Fits,
      Instruction.loaded, Instruction.stored, Instruction.accessError, Memory.load, Memory.store,
      Memory.place, length_toLittleEndian, Except.map, hr, hw, hc]

end Memory

end Guarded

/-- The parts of an address that a cache tells apart lie inside the address, and every index it can
cut out names a set. -/
structure Cache.Sound (c : Cache) : Prop where
  offsetBits : c.offsetBits < 64
  indexBits : c.indexBits < 64
  sets : c.sets.size = 2 ^ c.indexBits

/-- A cache of an accepted geometry is sound when it is built. -/
theorem Geometry.sound_of_validate {g : Geometry} {owner : String}
    (h : g.validate owner = .ok ()) {c : Cache} (hg : c.geometry = g)
    (hs : c.sets.size = g.sets) : c.Sound := by
  have ha := accepted_of_validate h
  have hshaped : c.Shaped g := ⟨ha, hg, hs⟩
  obtain ⟨j, hj⟩ := ha.block
  obtain ⟨k, hk⟩ := ha.sets
  have hsets : 0 < g.sets := hk ▸ Nat.two_pow_pos k
  have hblock : g.blockBytes ≤ maxCacheSize :=
    Nat.le_trans (Nat.le_mul_of_pos_left _ (Nat.mul_pos hsets ha.ways))
      (ha.size ▸ ha.bytesLimit)
  constructor
  · rw [Cache.offsetBits, hg, Nat.log2_lt (hj ▸ Nat.two_pow_pos j).ne']
    exact Nat.lt_of_le_of_lt hblock (by decide)
  · rw [Cache.indexBits, hs, Nat.log2_lt hsets.ne']
    exact Nat.lt_of_le_of_lt ha.setsLimit (by decide)
  · rw [hs, hshaped.two_pow_indexBits]

theorem Cache.Sound.access {c : Cache} (h : c.Sound) (addr : Word) : (c.access addr).Sound := by
  have hsize := c.size_sets_access addr
  have hindex : (c.access addr).indexBits = c.indexBits := by
    rw [Cache.indexBits, hsize, Cache.indexBits]
  have hoffset : (c.access addr).offsetBits = c.offsetBits := by
    rw [Cache.offsetBits, Cache.geometry_access, Cache.offsetBits]
  exact ⟨hoffset ▸ h.offsetBits, hindex ▸ h.indexBits, by rw [hsize, hindex, h.sets]⟩

namespace Guarded

section Caches

variable {c : Cache} (addr : Word)

/-- The number of the set an address belongs to, and its tag there. -/
def locate (c : Cache) : Guarded (Nat × Nat) := do
  let block ← shiftRight addr c.offsetBits
  let mask ← ones c.indexBits
  let tag ← shiftRight block c.indexBits
  return ((block &&& mask).toNat, tag.toNat)

/-- The set with a given number. -/
def cacheSet (c : Cache) (index : Nat) : Guarded RecencySet :=
  if h : index < c.sets.size then .ok c.sets[index] else .error (.cacheSet index c.sets.size)

/-- Presents an address to a cache: whether its block is resident, and the cache after the
access. -/
def present (c : Cache) : Guarded (Bool × Cache) := do
  let (index, tag) ← locate addr c
  let set ← cacheSet c index
  let c := { c with sets := c.sets.setIfInBounds index (set.touch tag) }
  match set.outcome tag with
  | .hit => return (true, { c with hits := c.hits + 1 })
  | .miss _ => return (false, { c with misses := c.misses + 1 })

theorem locate_eq (h : c.Sound) : locate addr c = .ok (c.index addr, c.tag addr) := by
  rw [locate, shiftRight_eq h.offsetBits, ok_bind, ones_eq h.indexBits, ok_bind,
    shiftRight_eq h.indexBits, ok_bind, pure_eq, toNat_and_ones _ (Nat.le_of_lt h.indexBits),
    BitVec.toNat_ushiftRight addr, BitVec.toNat_ushiftRight, BitVec.toNat_ushiftRight, Cache.index,
    Cache.tag, Cache.block, Nat.one_shiftLeft]

theorem index_lt (h : c.Sound) : c.index addr < c.sets.size := by
  rw [h.sets, Cache.index, Nat.one_shiftLeft]
  exact Nat.mod_lt _ (Nat.two_pow_pos _)

/-- The index that an address spells names a set. -/
theorem present_eq (h : c.Sound) : present addr c = .ok (c.contains addr, c.access addr) := by
  have hindex := index_lt addr h
  have hset : c.setTags (c.index addr) = c.sets[c.index addr].tags := by
    rw [Cache.setTags, Array.getElem?_eq_getElem hindex]
  have hmodify : c.sets.modify (c.index addr) (·.touch (c.tag addr)) =
      c.sets.setIfInBounds (c.index addr) (c.sets[c.index addr].touch (c.tag addr)) := by
    refine Array.ext (by simp) fun j _ _ => ?_
    rw [Array.getElem_modify, Array.getElem_setIfInBounds]
    split
    next hj => subst hj; rfl
    next => rfl
  have hcontains : c.contains addr = c.sets[c.index addr].contains (c.tag addr) := by
    rw [Cache.contains, hset, RecencySet.contains]
  rw [present, locate_eq addr h, ok_bind]
  simp only [cacheSet, dif_pos hindex, ok_bind, Cache.access, hcontains, hmodify]
  unfold RecencySet.outcome
  split_ifs with hc <;> simp [*]

end Caches

end Guarded

end FiveStage
