import FiveStage.Proofs.InitialMemory
import FiveStage.Proofs.LittleEndian

/-! # Addresses of bytes

An access of several bytes is checked once, by its distance from the base, while the addresses of
its bytes are words and start again at zero behind the last one. The two agree except for an access
that passes the last address (`bytewise_iff`), and there is one only in a memory that reaches beyond
it, which accepted settings may ask for (`memory_addressable_iff`). -/

namespace FiveStage

theorem Config.memorySize_le {c : Config} (h : c.validate = .ok ()) :
    c.memorySize ≤ maxMemorySize := by
  unfold validate at h
  split at h
  next => cases h
  next =>
    split at h
    next => cases h
    next =>
      by_contra hlarge
      have hzero : c.memorySize ≠ 0 := fun hz => hlarge (hz ▸ Nat.zero_le _)
      rw [if_neg hzero, if_pos (Nat.lt_of_not_le hlarge)] at h
      cases h

theorem Word.toNat_add_ofNat (a : Word) {k : Nat} (hk : k < 2 ^ 64) :
    (a + .ofNat 64 k).toNat =
      if a.toNat + k < 2 ^ 64 then a.toNat + k else a.toNat + k - 2 ^ 64 := by
  rw [BitVec.toNat_add, BitVec.toNat_ofNat, Nat.mod_eq_of_lt hk]
  have := a.isLt
  split <;> omega

namespace Memory

/-- A read at an address goes byte by byte: it succeeds exactly if the reads of single bytes at that
address and the ones behind it all do, and its value is put together from theirs, the lowest
first. -/
structure Bytewise (m : Memory) (addr : Word) (w : Width) : Prop where
  succeeds : (∃ v, m.load addr w = .ok v) ↔
    ∀ k < w.bytes, ∃ b, m.load (addr + .ofNat 64 k) .byte = .ok b
  value : ∀ (v : Word) (b : Nat → Word), m.load addr w = .ok v →
    (∀ k < w.bytes, m.load (addr + .ofNat 64 k) .byte = .ok (b k)) →
    v.toNat = ((List.range w.bytes).map fun k => (b k).toNat * 256 ^ k).sum

/-- The read of a single byte at an address is that of a given place of the memory, whatever bytes
are there. -/
def ReadsPlace (m : Memory) (a : Word) (i : Nat) : Prop :=
  ∀ d : Memory, d.base = m.base → d.size = m.size →
    d.load a .byte = .ok (.ofNat 64 (d.byteAt i).toNat)

/-- All reads go byte by byte, and each byte has exactly one address. -/
structure Addressable (m : Memory) : Prop where
  bytewise : ∀ addr w, m.Bytewise addr w
  unique : ∀ i < m.size, ∃! a, m.ReadsPlace a i

variable {m : Memory} {addr v : Word} {w : Width}

theorem load_eq_ok_iff : m.load addr w = .ok v ↔
    m.Contains addr w.bytes ∧ v = .ofNat 64 (m.number addr.toNat w.bytes) := by
  rw [load_eq]
  by_cases h : m.Contains addr w.bytes
  · rw [if_pos h]
    simp only [Except.ok.injEq, h, true_and, eq_comm]
  · rw [if_neg h]
    exact ⟨nofun, fun hv => absurd hv.1 h⟩

theorem exists_load_iff : (∃ v, m.load addr w = .ok v) ↔ m.Contains addr w.bytes := by
  simp only [load_eq_ok_iff, exists_and_left, exists_eq, and_true]

theorem load_byte_eq_ok_iff : m.load addr .byte = .ok v ↔
    m.Contains addr 1 ∧ v = .ofNat 64 (m.cell addr.toNat).toNat := by
  rw [load_eq_ok_iff]
  simp [number, Width.bytes]

theorem number_eq_sum (m : Memory) (a n : Nat) :
    m.number a n = ((List.range n).map fun k => (m.cell (a + k)).toNat * 256 ^ k).sum := by
  induction n with
  | zero => rfl
  | succ n ih => rw [number, ih, List.range_succ, List.map_append, List.sum_append]; simp

theorem number_lt (m : Memory) (a n : Nat) : m.number a n < 256 ^ n := by
  induction n with
  | zero => exact Nat.one_pos
  | succ n ih =>
    have hbyte : (m.cell (a + n)).toNat * 256 ^ n ≤ 255 * 256 ^ n :=
      Nat.mul_le_mul_right _ (Nat.le_of_lt_succ (m.cell (a + n)).toNat_lt)
    rw [number, Nat.pow_succ]
    omega

theorem toNat_number (m : Memory) (a : Nat) (w : Width) :
    (BitVec.ofNat 64 (m.number a w.bytes)).toNat = m.number a w.bytes := by
  rw [BitVec.toNat_ofNat, Nat.mod_eq_of_lt]
  refine Nat.lt_of_lt_of_le (m.number_lt a w.bytes) ?_
  cases w <;> decide

/-- The bytes of an access are mapped one by one exactly if the access is mapped and does not pass
the last address. -/
theorem forall_contains_byte_iff (hsize : m.size < 2 ^ 64) (addr : Word) {n : Nat} (hpos : 0 < n)
    (hn : n < 2 ^ 64) : (∀ k < n, m.Contains (addr + .ofNat 64 k) 1) ↔
      m.Contains addr n ∧ addr.toNat + n ≤ 2 ^ 64 := by
  have haddr := addr.isLt
  unfold Contains
  constructor
  · intro h
    have hfirst := h 0 hpos
    rw [Word.toNat_add_ofNat _ (by omega), if_pos (by omega)] at hfirst
    have htop : addr.toNat + n ≤ 2 ^ 64 := by
      by_contra hpass
      -- zero and the last address are both mapped, and so is everything between them
      have hlast := h (2 ^ 64 - 1 - addr.toNat) (by omega)
      have hzero := h (2 ^ 64 - addr.toNat) (by omega)
      rw [Word.toNat_add_ofNat _ (by omega), if_pos (by omega)] at hlast
      rw [Word.toNat_add_ofNat _ (by omega), if_neg (by omega)] at hzero
      omega
    have hlast := h (n - 1) (by omega)
    rw [Word.toNat_add_ofNat _ (by omega), if_pos (by omega)] at hlast
    omega
  · rintro ⟨hin, htop⟩ k hk
    rw [Word.toNat_add_ofNat _ (by omega), if_pos (by omega)]
    omega

theorem bytes_pos (w : Width) : 0 < w.bytes := by cases w <;> decide

theorem bytes_lt (w : Width) : w.bytes < 2 ^ 64 := by cases w <;> decide

/-- Every read goes byte by byte but one that is mapped and passes the last address. -/
theorem bytewise_iff (hsize : m.size < 2 ^ 64) (addr : Word) (w : Width) :
    m.Bytewise addr w ↔ ¬ (m.Contains addr w.bytes ∧ 2 ^ 64 < addr.toNat + w.bytes) := by
  have hbytes : (∀ k < w.bytes, ∃ b, m.load (addr + .ofNat 64 k) .byte = .ok b) ↔
      m.Contains addr w.bytes ∧ addr.toNat + w.bytes ≤ 2 ^ 64 := by
    simp only [exists_load_iff]
    exact forall_contains_byte_iff hsize addr (bytes_pos w) (bytes_lt w)
  constructor
  · rintro h ⟨hin, htop⟩
    have hall := h.succeeds.mp (exists_load_iff.mpr hin)
    exact absurd (hbytes.mp hall).2 (Nat.not_le_of_lt htop)
  · intro h
    refine ⟨?_, fun v b hv hb => ?_⟩
    · rw [hbytes, exists_load_iff]
      exact ⟨fun hin => ⟨hin, Nat.le_of_not_lt fun htop => h ⟨hin, htop⟩⟩, And.left⟩
    · obtain ⟨hin, htop⟩ := hbytes.mp fun k hk => ⟨b k, hb k hk⟩
      rw [(load_eq_ok_iff.mp hv).2, toNat_number, number_eq_sum]
      congr 1
      refine List.map_congr_left fun k hk => ?_
      have hk := List.mem_range.mp hk
      have hsum := bytes_lt w
      rw [(load_byte_eq_ok_iff.mp (hb k hk)).2, Word.toNat_add_ofNat _ (by omega),
        if_pos (by omega), BitVec.toNat_ofNat, Nat.mod_eq_of_lt]
      exact Nat.lt_trans (UInt8.toNat_lt _) (by decide)

/-- What a read yields, by the places of its bytes. -/
theorem toNat_load (h : m.load addr w = .ok v) :
    v.toNat = ((List.range w.bytes).map fun k =>
      (m.byteAt (addr.toNat - m.base.toNat + k)).toNat * 256 ^ k).sum := by
  obtain ⟨hin, rfl⟩ := load_eq_ok_iff.mp h
  rw [toNat_number, number_eq_sum]
  congr 1
  refine List.map_congr_left fun k _ => ?_
  have hplace : addr.toNat + k = m.base.toNat + (addr.toNat - m.base.toNat + k) := by
    have := hin.1
    omega
  rw [hplace, cell_base_add]

/-- A single byte is read at the address that is as far from the base as its place from the
start. -/
theorem readsPlace_iff {a : Word} {i : Nat} (hi : i < m.size) :
    m.ReadsPlace a i ↔ a.toNat = m.base.toNat + i := by
  constructor
  · intro h
    -- a memory that differs from zero at that place alone tells it from all others
    let d : Memory := ⟨m.base, setByte (zeros m.base m.size).bytes i 1⟩
    have hlen : (zeros m.base m.size).bytes.size = m.size := size_zeros m.base m.size
    have hread := h d rfl ((size_setByte _ i 1).trans hlen)
    obtain ⟨⟨hlow, -⟩, hvalue⟩ := load_byte_eq_ok_iff.mp hread
    have hbase : d.base = m.base := rfl
    rw [hbase] at hlow
    have hone : d.byteAt i = 1 := byteAt_setByte_same m.base _ 1 (by rwa [hlen])
    by_contra hne
    have hzero : d.cell a.toNat = 0 := by
      rw [cell, hbase, if_pos hlow, byteAt_setByte_of_ne m.base _ 1 (by omega)]
      exact byteAt_zeros m.base m.size _
    rw [hone, hzero] at hvalue
    exact absurd hvalue (by decide)
  · intro h d hbase hsize
    refine load_byte_eq_ok_iff.mpr ⟨⟨?_, ?_⟩, ?_⟩
    · rw [hbase]
      omega
    · rw [hbase, hsize]
      omega
    · rw [h, ← hbase, cell_base_add]

theorem existsUnique_readsPlace_iff {i : Nat} (hi : i < m.size) :
    (∃! a, m.ReadsPlace a i) ↔ m.base.toNat + i < 2 ^ 64 := by
  simp only [readsPlace_iff hi]
  constructor
  · rintro ⟨a, ha, -⟩
    exact ha ▸ a.isLt
  · intro h
    refine ⟨.ofNat 64 (m.base.toNat + i), ?_, fun a ha => ?_⟩
    · exact Nat.mod_eq_of_lt h
    · exact BitVec.eq_of_toNat_eq (ha.trans (Nat.mod_eq_of_lt h).symm)

/-- A memory is addressable exactly if it does not reach beyond the last address. -/
theorem addressable_iff (hsize : m.size < 2 ^ 64) :
    m.Addressable ↔ m.base.toNat + m.size ≤ 2 ^ 64 := by
  have hbase := m.base.isLt
  constructor
  · intro h
    by_contra hlong
    have hunique := h.unique (2 ^ 64 - m.base.toNat) (by omega)
    have htop := (existsUnique_readsPlace_iff (by omega)).mp hunique
    omega
  · intro h
    refine ⟨fun addr w => (bytewise_iff hsize addr w).mpr ?_, fun i hi => ?_⟩
    · rintro ⟨⟨-, hin⟩, htop⟩
      omega
    · exact (existsUnique_readsPlace_iff hi).mpr (by omega)

end Memory

/-- The memory built from accepted settings, whatever has been stored in it since, is addressable
exactly if it does not reach beyond the last 64-bit address. In any case a read goes byte by byte
unless it is mapped and passes the last address, its value is put together from the bytes at
consecutive places, and a byte has exactly one address if its place leaves it one, and none if it
does not. -/
theorem memory_addressable_iff {c : Config} (hc : c.validate = .ok ()) {program : ByteArray}
    {f : Files} {built m : Memory} (hbuilt : Memory.initial c program f = .ok built)
    (hbase : m.base = built.base) (hsize : m.size = built.size) :
    (m.Addressable ↔ c.memoryBase.toNat + c.memorySize ≤ 2 ^ 64) ∧
    (∀ addr w, m.Bytewise addr w ↔ ¬ (m.Contains addr w.bytes ∧ 2 ^ 64 < addr.toNat + w.bytes)) ∧
    (∀ addr w v, m.load addr w = .ok v → v.toNat = ((List.range w.bytes).map fun k =>
      (m.byteAt (addr.toNat - m.base.toNat + k)).toNat * 256 ^ k).sum) ∧
    ∀ i < m.size, if c.memoryBase.toNat + i < 2 ^ 64 then ∃! a, m.ReadsPlace a i
      else ∀ a, ¬ m.ReadsPlace a i := by
  obtain ⟨hbase', hsize'⟩ := Config.initial_shape hc hbuilt
  rw [hbase'] at hbase
  rw [hsize'] at hsize
  have hsmall : m.size < 2 ^ 64 := by
    rw [hsize]
    exact Nat.lt_of_le_of_lt (Config.memorySize_le hc) (by decide)
  refine ⟨?_, Memory.bytewise_iff hsmall, fun _ _ _ => Memory.toNat_load, fun i hi => ?_⟩
  · rw [Memory.addressable_iff hsmall, hbase, hsize]
  · rw [← hbase]
    split
    next h => exact (Memory.existsUnique_readsPlace_iff hi).mpr h
    next h =>
      intro a ha
      rw [Memory.readsPlace_iff hi] at ha
      exact h (ha ▸ a.isLt)

/-- Settings with a memory of four bytes, two of which lie behind the last address. -/
def Config.beyond : Config := { memoryBase := 0xFFFFFFFFFFFFFFFE, memorySize := 4 }

/-- The memory without a program. -/
def Config.blank (c : Config) : Memory := (Memory.ofImage c .empty).written []

theorem Config.initial_blank {c : Config} (hc : c.validate = .ok ()) (himage : c.initImage = none) :
    Memory.initial c .empty { nodes := [] } = .ok c.blank := by
  have htext : c.NamesImage { nodes := [] } [] := by
    rw [NamesImage, himage]
    rfl
  exact (initial_eq_ok_iff hc htext).mpr ⟨Nat.zero_le _, [], rfl, by simp, rfl⟩

/-- The default settings give an addressable memory, and a memory that reaches beyond the last
address is not: the read of all its bytes is the only one from its base that does not go byte by
byte. -/
theorem memory_addressable_iff_beyond :
    (∃ m, Memory.initial {} .empty { nodes := [] } = .ok m ∧ m.Addressable) ∧
    ∃ m, Memory.initial .beyond .empty { nodes := [] } = .ok m ∧ ¬ m.Addressable ∧
      m.Bytewise 0xFFFFFFFFFFFFFFFE .half ∧ ¬ m.Bytewise 0xFFFFFFFFFFFFFFFE .word ∧
      (∃! a, m.ReadsPlace a 1) ∧ ∀ a, ¬ m.ReadsPlace a 2 := by
  have hlow := Config.initial_blank (c := {}) (by decide) rfl
  have hhigh := Config.initial_blank (c := .beyond) (by decide) rfl
  obtain ⟨haddressable, -⟩ := memory_addressable_iff (by decide) hlow rfl rfl
  obtain ⟨hnot, hbytewise, -, hplace⟩ := memory_addressable_iff (by decide) hhigh rfl rfl
  have hsize : Config.beyond.blank.size = 4 := (Config.initial_shape (by decide) hhigh).2
  refine ⟨⟨_, hlow, haddressable.mpr (by decide)⟩, _, hhigh, mt hnot.mp (by decide),
    (hbytewise _ _).mpr (by decide +kernel), mt (hbytewise _ _).mp ?_, ?_, ?_⟩
  · decide +kernel
  · exact (if_pos (by decide)).mp (hplace 1 (by rw [hsize]; decide))
  · exact (if_neg (by decide)).mp (hplace 2 (by rw [hsize]; decide))

/-- Accepted settings need not give an addressable memory: its four bytes can be read together, but
not the third by itself, which no address leads to. -/
theorem memory_addressable_fails_beyond :
    ¬ (∀ (c : Config) (program : ByteArray) (f : Files) (m : Memory), c.validate = .ok () →
      Memory.initial c program f = .ok m → m.Addressable) ∧
    Config.beyond.validate = .ok () ∧
      Memory.initial .beyond .empty { nodes := [] } = .ok Config.beyond.blank ∧
    (∃ v, Config.beyond.blank.load 0xFFFFFFFFFFFFFFFE .word = .ok v) ∧
    Config.beyond.blank.load (0xFFFFFFFFFFFFFFFE + .ofNat 64 2) .byte = .error (.outOfBounds 0 1) ∧
    ∀ a, ¬ Config.beyond.blank.ReadsPlace a 2 := by
  have hc : Config.beyond.validate = .ok () := by decide
  have hm := Config.initial_blank hc rfl
  obtain ⟨hbase, hsize⟩ := Config.initial_shape hc hm
  have hplace : ∀ a, ¬ Config.beyond.blank.ReadsPlace a 2 := by
    intro a ha
    rw [Memory.readsPlace_iff (by rw [hsize]; decide), hbase] at ha
    exact absurd (ha ▸ a.isLt) (by decide)
  refine ⟨fun hall => ?_, hc, hm, ⟨0, by decide +kernel⟩, by decide +kernel, hplace⟩
  obtain ⟨a, ha, -⟩ := (hall _ _ _ _ hc hm).unique 2 (by rw [hsize]; decide)
  exact hplace a ha

end FiveStage
