import FiveStage.Config.Error
import FiveStage.Text.Blank

/-!
# Cache geometry

The size, block size and associativity of a cache, with the stall its misses cost; which of them
describe a cache that can be built, and how they are written on a command line.
-/

namespace FiveStage

/-- The largest cache in bytes. -/
def maxCacheSize : Nat := 0x1000000

/-- The largest number of ways. -/
def maxCacheWays : Nat := 0x400

/-- The largest number of sets. -/
def maxCacheSets : Nat := 0x10000

/-- The shape and the timing of a cache. -/
structure Geometry where
  sizeBytes : Nat := 1024
  blockBytes : Nat := 16
  ways : Nat := 1
  /-- the cycles a miss stalls -/
  missLatency : Nat := 5
  deriving DecidableEq, Repr, Inhabited

/-- Whether a number is a power of two. -/
def isPowerOfTwo (n : Nat) : Bool := n ≠ 0 && 1 <<< n.log2 = n

namespace Geometry

/-- The bytes of a set; a product that needs more than 64 bits counts as the largest number of 64
bits. -/
def setBytes (g : Geometry) : Nat := min (g.blockBytes * g.ways) 0xFFFFFFFFFFFFFFFF

/-- The number of sets. -/
def sets (g : Geometry) : Nat := g.sizeBytes / g.setBytes

/-- Checks that a cache of this shape can be built, and reports the first rule it breaks: no field
is zero, size and ways keep to their limits, a block is a power of two, the size is a multiple of
the bytes in a set, and the sets keep to their limit and are a power of two. -/
def validate (g : Geometry) (owner : String) : Except ConfigError Unit :=
  if g.sizeBytes = 0 then .error (.zero owner "size_bytes")
  else if g.blockBytes = 0 then .error (.zero owner "block_bytes")
  else if g.ways = 0 then .error (.zero owner "ways")
  else if maxCacheSize < g.sizeBytes then
    .error (.tooLarge owner "size_bytes" g.sizeBytes maxCacheSize)
  else if maxCacheWays < g.ways then .error (.tooLarge owner "ways" g.ways maxCacheWays)
  else if !isPowerOfTwo g.blockBytes then
    .error (.notPowerOfTwo owner "block_bytes" g.blockBytes)
  else if g.sizeBytes % g.setBytes ≠ 0 ∨ g.sizeBytes < g.setBytes then
    .error (.geometry owner g.sizeBytes g.setBytes)
  else if maxCacheSets < g.sets then .error (.tooLarge owner "sets" g.sets maxCacheSets)
  else if !isPowerOfTwo g.sets then .error (.notPowerOfTwo owner "sets" g.sets)
  else .ok ()

/-- Reads the fields of a spec; the first that is no number is the fault of the whole text. -/
def readFields (text : List Char) : List (List Char) → Except ConfigError (List Nat)
  | [] => .ok []
  | field :: rest =>
    match Text.readUnsigned 10 (Text.trim field) with
    | .error e => .error (.parse .cacheSpec (.numeral text e))
    | .ok n =>
      match readFields text rest with
      | .error e => .error e
      | .ok ns => .ok (n :: ns)

/-- Reads a spec of four numbers between commas: size, block, ways, latency. -/
def readSpec (text : List Char) : Except ConfigError Geometry :=
  match readFields text (Text.splitOn ',' text) with
  | .error e => .error e
  | .ok [size, block, ways, latency] => .ok ⟨size, block, ways, latency⟩
  | .ok _ => .error (.parse .cacheSpec (.specShape text))

end Geometry

end FiveStage
