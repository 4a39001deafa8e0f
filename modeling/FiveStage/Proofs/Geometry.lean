import Mathlib.Algebra.Group.Nat.Defs
import FiveStage.Proofs.Cache

/-! # Which caches can be built, and how they split an address

A shape is checked rule by rule, and the first rule it breaks is reported (`Geometry.Verdict`). The
rules speak of exact products and quotients, the check of products that are cut off at 64 bits: the
two agree because no size reaches that far. In a cache of an accepted shape, whatever has been
presented to it (`Cache.Shaped`), the set and the tag of an address are remainder and quotient of
the number of its block, and the two together tell the blocks apart
(`geometry_validation_exact`). -/

namespace FiveStage

theorem isPowerOfTwo_iff (n : Nat) : isPowerOfTwo n = true ↔ ∃ k, n = 2 ^ k := by
  unfold isPowerOfTwo
  rw [Bool.and_eq_true, decide_eq_true_eq, decide_eq_true_eq, Nat.one_shiftLeft]
  constructor
  · exact fun h => ⟨n.log2, h.2.symm⟩
  · rintro ⟨k, rfl⟩
    exact ⟨Nat.ne_of_gt (Nat.two_pow_pos k), by rw [Nat.log2_two_pow]⟩

namespace Geometry

/-- A rule for the shape of a cache, and the error that reports a shape that breaks it. -/
structure Rule where
  Keeps : Geometry → Prop
  /-- the error for the cache with a given name -/
  error : String → Geometry → ConfigError

/-- The rules in the order in which they are checked. A set of a shape that keeps the first three
has `blockBytes * ways` bytes. -/
def rules : List Rule :=
  [⟨fun g => g.sizeBytes ≠ 0, fun owner _ => .zero owner "size_bytes"⟩,
    ⟨fun g => g.blockBytes ≠ 0, fun owner _ => .zero owner "block_bytes"⟩,
    ⟨fun g => g.ways ≠ 0, fun owner _ => .zero owner "ways"⟩,
    ⟨fun g => g.sizeBytes ≤ 2 ^ 24,
      fun owner g => .tooLarge owner "size_bytes" g.sizeBytes (2 ^ 24)⟩,
    ⟨fun g => g.ways ≤ 1024, fun owner g => .tooLarge owner "ways" g.ways 1024⟩,
    ⟨fun g => ∃ k, g.blockBytes = 2 ^ k,
      fun owner g => .notPowerOfTwo owner "block_bytes" g.blockBytes⟩,
    ⟨fun g => g.blockBytes * g.ways ∣ g.sizeBytes,
      fun owner g => .geometry owner g.sizeBytes (min (g.blockBytes * g.ways) (2 ^ 64 - 1))⟩,
    ⟨fun g => g.sizeBytes / (g.blockBytes * g.ways) ≤ 65536,
      fun owner g => .tooLarge owner "sets" (g.sizeBytes / (g.blockBytes * g.ways)) 65536⟩,
    ⟨fun g => ∃ k, g.sizeBytes / (g.blockBytes * g.ways) = 2 ^ k,
      fun owner g => .notPowerOfTwo owner "sets" (g.sizeBytes / (g.blockBytes * g.ways))⟩]

/-- The verdict on a shape by a list of rules: the first rule that it breaks is reported. -/
inductive Verdict (g : Geometry) (owner : String) : List Rule → Except ConfigError Unit → Prop
  | accepted : Verdict g owner [] (.ok ())
  | broken {r : Rule} {rs : List Rule} (breaks : ¬ r.Keeps g) :
    Verdict g owner (r :: rs) (.error (r.error owner g))
  | kept {r : Rule} {rs : List Rule} {out : Except ConfigError Unit} (keeps : r.Keeps g)
    (rest : Verdict g owner rs out) : Verdict g owner (r :: rs) out

namespace Verdict

variable {g : Geometry} {owner : String} {r : Rule} {rs : List Rule} {out : Except ConfigError Unit}

/-- A test that fails exactly the shapes that break a rule, in front of what follows. -/
theorem check {p : Prop} [Decidable p] (fails : p ↔ ¬ r.Keeps g)
    (rest : ¬ p → Verdict g owner rs out) :
    Verdict g owner (r :: rs) (if p then .error (r.error owner g) else out) := by
  split
  next hp => exact .broken (fails.mp hp)
  next hp => exact .kept (Classical.not_not.mp (mt fails.mpr hp)) (rest hp)

theorem ok_iff (h : Verdict g owner rs out) : out = .ok () ↔ ∀ r ∈ rs, r.Keeps g := by
  induction h with
  | accepted => simp
  | broken breaks => simp [breaks]
  | kept keeps _ ih => simp [keeps, ih]

theorem error_iff (h : Verdict g owner rs out) (e : ConfigError) :
    out = .error e ↔ ∃ before r after, rs = before ++ r :: after ∧ (∀ k ∈ before, k.Keeps g) ∧
      ¬ r.Keeps g ∧ e = r.error owner g := by
  induction h with
  | accepted => simp
  | @broken r rs breaks =>
    constructor
    · intro he
      exact ⟨[], r, rs, rfl, by simp, breaks, (Except.error.inj he).symm⟩
    · rintro ⟨before, r', after, hsplit, hkept, -, rfl⟩
      cases before with
      | nil => cases hsplit; rfl
      | cons k before =>
        cases hsplit
        exact absurd (hkept r (by simp)) breaks
  | @kept r rs out keeps _ ih =>
    rw [ih]
    constructor
    · rintro ⟨before, r', after, rfl, hkept, h⟩
      exact ⟨r :: before, r', after, rfl, by simpa [keeps] using hkept, h⟩
    · rintro ⟨before, r', after, hsplit, hkept, h⟩
      cases before with
      | nil =>
        cases hsplit
        exact absurd keeps h.1
      | cons k before =>
        cases hsplit
        exact ⟨before, r', after, rfl, fun k hk => hkept k (by simp [hk]), h⟩

end Verdict

variable {g : Geometry}

/-- The bytes of a set are cut off only where they exceed every size. -/
theorem setBytes_cases (h : g.sizeBytes ≤ 2 ^ 24) :
    g.setBytes = g.blockBytes * g.ways ∨
      g.sizeBytes < g.setBytes ∧ g.sizeBytes < g.blockBytes * g.ways := by
  unfold setBytes
  omega

theorem divides_iff (hsize : g.sizeBytes ≠ 0) (h : g.sizeBytes ≤ 2 ^ 24) :
    (g.sizeBytes % g.setBytes ≠ 0 ∨ g.sizeBytes < g.setBytes) ↔
      ¬ g.blockBytes * g.ways ∣ g.sizeBytes := by
  rcases setBytes_cases h with e | ⟨hset, hprod⟩
  · rw [e, Nat.dvd_iff_mod_eq_zero]
    constructor
    · rintro (hmod | hlt)
      · exact hmod
      · rwa [Nat.mod_eq_of_lt hlt]
    · exact .inl
  · exact iff_of_true (.inr hset) fun hdvd =>
      Nat.not_le_of_lt hprod (Nat.le_of_dvd (Nat.pos_of_ne_zero hsize) hdvd)

theorem sets_eq (h : g.sizeBytes ≤ 2 ^ 24) :
    g.sets = g.sizeBytes / (g.blockBytes * g.ways) := by
  unfold sets
  rcases setBytes_cases h with e | ⟨hset, hprod⟩
  · rw [e]
  · rw [Nat.div_eq_of_lt hset, Nat.div_eq_of_lt hprod]

/-- The check goes through the rules in their order. -/
theorem validate_verdict (g : Geometry) (owner : String) :
    Verdict g owner rules (g.validate owner) := by
  have power (n : Nat) : (!isPowerOfTwo n) = true ↔ ¬ ∃ k, n = 2 ^ k := by
    rw [← isPowerOfTwo_iff, Bool.not_eq_true', Bool.not_eq_true]
  unfold validate rules
  refine .check Decidable.not_not.symm fun hsize => ?_
  refine .check Decidable.not_not.symm fun _ => ?_
  refine .check Decidable.not_not.symm fun _ => ?_
  refine .check Nat.not_le.symm fun hlarge => ?_
  refine .check Nat.not_le.symm fun _ => ?_
  refine .check (power _) fun _ => ?_
  have hle : g.sizeBytes ≤ 2 ^ 24 := Nat.le_of_not_lt hlarge
  refine .check (divides_iff hsize hle) fun _ => ?_
  rw [sets_eq hle]
  refine .check Nat.not_le.symm fun _ => ?_
  exact .check (power _) fun _ => .accepted

/-- What an accepted shape promises: whole sets of whole blocks, both in powers of two, and neither
too many bytes nor too many sets. -/
structure Accepted (g : Geometry) : Prop where
  ways : 0 < g.ways
  block : ∃ k, g.blockBytes = 2 ^ k
  sets : ∃ k, g.sets = 2 ^ k
  size : g.sets * g.ways * g.blockBytes = g.sizeBytes
  bytesLimit : g.sizeBytes ≤ maxCacheSize
  setsLimit : g.sets ≤ maxCacheSets

theorem accepted_of_validate {owner : String} (h : g.validate owner = .ok ()) : g.Accepted := by
  have hrules := (validate_verdict g owner).ok_iff.mp h
  simp only [rules, List.forall_mem_cons, List.not_mem_nil, false_implies, implies_true,
    and_true] at hrules
  obtain ⟨-, -, hways, hsize, -, hblock, hdvd, hsets, hpower⟩ := hrules
  rw [← sets_eq hsize] at hpower hsets
  refine ⟨Nat.pos_of_ne_zero hways, hblock, hpower, ?_, hsize, hsets⟩
  rw [sets_eq hsize, Nat.mul_assoc, Nat.mul_comm g.ways, Nat.div_mul_cancel hdvd]

/-- The number of the block that an address lies in. -/
def blockOf (g : Geometry) (addr : Word) : Nat := addr.toNat / g.blockBytes

/-- The number of the set that the block of an address belongs to. -/
def setOf (g : Geometry) (addr : Word) : Nat := g.blockOf addr % g.sets

/-- The number that tells the block of an address from the others of its set. -/
def tagOf (g : Geometry) (addr : Word) : Nat := g.blockOf addr / g.sets

theorem tagOf_mul_add (g : Geometry) (addr : Word) :
    g.tagOf addr * g.sets + g.setOf addr = g.blockOf addr := by
  rw [tagOf, setOf, Nat.mul_comm]
  exact Nat.div_add_mod _ _

/-- Set and tag tell the blocks apart. -/
theorem setOf_tagOf_iff (g : Geometry) (addr addr' : Word) :
    (g.setOf addr = g.setOf addr' ∧ g.tagOf addr = g.tagOf addr') ↔
      g.blockOf addr = g.blockOf addr' := by
  constructor
  · rintro ⟨hset, htag⟩
    rw [← tagOf_mul_add, hset, htag, tagOf_mul_add]
  · intro h
    rw [setOf, setOf, tagOf, tagOf, h]
    exact ⟨rfl, rfl⟩

end Geometry

namespace Cache

/-- A cache of an accepted shape. -/
structure Shaped (g : Geometry) (c : Cache) : Prop where
  accepted : g.Accepted
  geometry : c.geometry = g
  sets : c.sets.size = g.sets

theorem shaped_of_build {g : Geometry} {name : String} {c : Cache}
    (h : build name g = .ok c) : c.Shaped g := by
  unfold build at h
  split at h
  next => cases h
  next hv =>
    cases h
    exact ⟨Geometry.accepted_of_validate hv, rfl, Array.size_replicate⟩

theorem build_eq_ok_iff (name : String) (g : Geometry) :
    (∃ c, build name g = .ok c) ↔ g.validate name = .ok () := by
  unfold build
  cases g.validate name <;> simp

theorem build_eq_error_iff (name : String) (g : Geometry) (e : ConfigError) :
    build name g = .error e ↔ g.validate name = .error e := by
  unfold build
  cases g.validate name <;> simp

namespace Shaped

variable {g : Geometry} {c : Cache}

theorem access (h : c.Shaped g) (addr : Word) : (c.access addr).Shaped g where
  accepted := h.accepted
  geometry := (geometry_access c addr).trans h.geometry
  sets := (size_sets_access c addr).trans h.sets

theorem feed (h : c.Shaped g) (addrs : List Word) : (c.feed addrs).Shaped g := by
  induction addrs generalizing c with
  | nil => exact h
  | cons addr addrs ih => exact ih (h.access addr)

/-- Shifting the bits of the offset out is dividing by the size of a block. -/
theorem block_eq (h : c.Shaped g) (addr : Word) : c.block addr = g.blockOf addr := by
  obtain ⟨k, hk⟩ := h.accepted.block
  rw [block, offsetBits, h.geometry, Geometry.blockOf, hk, Nat.log2_two_pow,
    Nat.shiftRight_eq_div_pow]

theorem two_pow_indexBits (h : c.Shaped g) : 2 ^ c.indexBits = g.sets := by
  obtain ⟨k, hk⟩ := h.accepted.sets
  rw [indexBits, h.sets, hk, Nat.log2_two_pow]

theorem index_eq (h : c.Shaped g) (addr : Word) : c.index addr = g.setOf addr := by
  rw [index, h.block_eq, Nat.one_shiftLeft, h.two_pow_indexBits, Geometry.setOf]

theorem tag_eq (h : c.Shaped g) (addr : Word) : c.tag addr = g.tagOf addr := by
  rw [tag, h.block_eq, Nat.shiftRight_eq_div_pow, h.two_pow_indexBits, Geometry.tagOf]

theorem index_lt (h : c.Shaped g) (addr : Word) : c.index addr < c.sets.size := by
  obtain ⟨k, hk⟩ := h.accepted.sets
  rw [h.index_eq, h.sets, Geometry.setOf]
  exact Nat.mod_lt _ (hk ▸ Nat.two_pow_pos k)

end Shaped

end Cache

/-- Validation is exact: a shape is accepted, and a cache of it is built, if and only if it keeps
every rule, and otherwise the first rule that it breaks is reported. It is also sufficient: sets,
ways and blocks of the cache make up its size, and whatever is presented to the cache, the set and
the tag of an address are remainder and quotient of the number of its block, so that two addresses
agree in both exactly when they lie in the same block. -/
theorem geometry_validation_exact (g : Geometry) (owner : String) :
    (g.validate owner = .ok () ↔ ∀ r ∈ Geometry.rules, r.Keeps g) ∧
    (∀ e, g.validate owner = .error e ↔
      ∃ before r after, Geometry.rules = before ++ r :: after ∧ (∀ k ∈ before, k.Keeps g) ∧
        ¬ r.Keeps g ∧ e = r.error owner g) ∧
    ((∃ c, Cache.build owner g = .ok c) ↔ g.validate owner = .ok ()) ∧
    (∀ e, Cache.build owner g = .error e ↔ g.validate owner = .error e) ∧
    ∀ c, Cache.build owner g = .ok c →
      c.sets.size = g.sets ∧ g.sets * g.ways * g.blockBytes = g.sizeBytes ∧
      ∀ addrs addr, let d := c.feed addrs
        d.index addr < g.sets ∧
        d.tag addr * g.sets + d.index addr = addr.toNat / g.blockBytes ∧
        ∀ addr', (d.index addr = d.index addr' ∧ d.tag addr = d.tag addr') ↔
          addr.toNat / g.blockBytes = addr'.toNat / g.blockBytes := by
  have hverdict := g.validate_verdict owner
  refine ⟨hverdict.ok_iff, hverdict.error_iff, Cache.build_eq_ok_iff owner g,
    Cache.build_eq_error_iff owner g, fun c hc => ?_⟩
  have hshape := Cache.shaped_of_build hc
  refine ⟨hshape.sets, hshape.accepted.size, fun addrs addr => ?_⟩
  have hd := hshape.feed addrs
  refine ⟨hd.sets ▸ hd.index_lt addr, ?_, fun addr' => ?_⟩
  · rw [hd.index_eq, hd.tag_eq]
    exact g.tagOf_mul_add addr
  · rw [hd.index_eq, hd.index_eq, hd.tag_eq, hd.tag_eq]
    exact g.setOf_tagOf_iff addr addr'

/-- Sixteen sets of three ways. -/
theorem geometry_validation_exact_three_ways :
    ∃ c, Cache.build "D-cache" ⟨768, 16, 3, 5⟩ = .ok c ∧ c.sets.size = 16 ∧
      (c.feed [0x40]).index 0x1234 < 16 ∧
      (c.feed [0x40]).tag 0x1234 * 16 + (c.feed [0x40]).index 0x1234 = 0x123 := by
  obtain ⟨-, -, -, -, hbuilt⟩ := geometry_validation_exact ⟨768, 16, 3, 5⟩ "D-cache"
  obtain ⟨c, h⟩ : ∃ c, Cache.build "D-cache" ⟨768, 16, 3, 5⟩ = .ok c := ⟨_, rfl⟩
  obtain ⟨hsets, -, hsplit⟩ := hbuilt c h
  obtain ⟨hindex, htag, -⟩ := hsplit [0x40] 0x1234
  exact ⟨c, h, hsets, hindex, htag⟩

end FiveStage
