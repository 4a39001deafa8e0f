import FiveStage.Cache.Basic

/-! # The traffic of a cache

Every access of a cache hits or misses, so that hits and misses together count what has been
presented to it, and a cache that may have seen one address has seen it when they have grown. -/

namespace FiveStage

namespace Cache

/-- The number of accesses a cache has seen. -/
def traffic (c : Cache) : Nat := c.hits + c.misses

/-- The cache after a sequence of accesses. -/
def feed (c : Cache) (addrs : List Word) : Cache := addrs.foldl access c

theorem feed_append (c : Cache) (addrs addrs' : List Word) :
    c.feed (addrs ++ addrs') = (c.feed addrs).feed addrs' := List.foldl_append

theorem traffic_access (c : Cache) (addr : Word) : (c.access addr).traffic = c.traffic + 1 := by
  unfold access traffic
  split
  · exact Nat.add_right_comm _ _ _
  · rfl

@[simp] theorem geometry_access (c : Cache) (addr : Word) :
    (c.access addr).geometry = c.geometry := by
  unfold access
  split <;> rfl

theorem sets_access (c : Cache) (addr : Word) :
    (c.access addr).sets = c.sets.modify (c.index addr) (·.touch (c.tag addr)) := by
  unfold access
  split <;> rfl

theorem size_sets_access (c : Cache) (addr : Word) :
    (c.access addr).sets.size = c.sets.size := by
  rw [sets_access, Array.size_modify]

theorem misses_access (c : Cache) (addr : Word) :
    (c.access addr).misses = c.misses + (!c.contains addr).toNat := by
  unfold access
  split <;> simp [*]

/-- What has been presented to a cache in between, if it can only have been one address. -/
def presented (c c' : Cache) (addr : Word) : List Word :=
  if c'.traffic = c.traffic then [] else [addr]

@[simp] theorem presented_self (c : Cache) (addr : Word) : c.presented c addr = [] := if_pos rfl

@[simp] theorem presented_access (c : Cache) (addr addr' : Word) :
    c.presented (c.access addr) addr' = [addr'] :=
  if_neg (by rw [traffic_access]; exact Nat.succ_ne_self _)

end Cache

end FiveStage
