/-!
# Recency lists

The resident tags of one cache set in the order of their last use, the least recently used first.
-/

namespace FiveStage

/-- The outcome of presenting a tag to a set. -/
inductive SetAccess
  /-- the tag was resident -/
  | hit
  /-- the tag was brought in, perhaps in place of another -/
  | miss (evicted : Option Nat)
  deriving DecidableEq, Repr

/-- A set of at most `ways` tags, the least recently used first. -/
structure RecencySet where
  ways : Nat
  tags : List Nat := []
  deriving DecidableEq, Repr, Inhabited

namespace RecencySet

/-- Whether a tag is resident. -/
def contains (s : RecencySet) (tag : Nat) : Bool := s.tags.contains tag

/-- The outcome of presenting a tag: a hit when it is resident, and otherwise a miss that puts out
the least recently used tag of a full set. -/
def outcome (s : RecencySet) (tag : Nat) : SetAccess :=
  if s.contains tag then .hit
  else if s.ways ≤ s.tags.length then .miss s.tags.head?
  else .miss none

/-- The set after a tag has been presented: the tag becomes the most recently used. -/
def touch (s : RecencySet) (tag : Nat) : RecencySet :=
  if s.contains tag then { s with tags := s.tags.erase tag ++ [tag] }
  else if s.ways ≤ s.tags.length then { s with tags := s.tags.tail ++ [tag] }
  else { s with tags := s.tags ++ [tag] }

end RecencySet

end FiveStage
