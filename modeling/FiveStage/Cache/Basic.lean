import FiveStage.Cache.Geometry
import FiveStage.Cache.Recency
import FiveStage.Word

/-!
# Caches

A set-associative cache that keeps the tags of its blocks and no data: it decides whether an access
hits and counts hits and misses. Reads and writes are treated alike.
-/

namespace FiveStage

/-- What an access does. -/
inductive CacheOp
  /-- an instruction fetch or a load -/
  | read
  /-- a store -/
  | write
  deriving DecidableEq, Repr

/-- An access as it is presented to a cache. -/
structure CacheAccess where
  op : CacheOp
  addr : Word
  deriving DecidableEq, Repr

/-- A cache. -/
structure Cache where
  /-- the name in reports and messages -/
  name : String
  geometry : Geometry
  sets : Array RecencySet
  /-- accesses that found their block -/
  hits : Nat := 0
  /-- accesses that brought their block in -/
  misses : Nat := 0
  deriving DecidableEq, Repr, Inhabited

namespace Cache

/-- An empty cache, if its geometry is accepted. -/
def build (name : String) (g : Geometry) : Except ConfigError Cache :=
  match g.validate name with
  | .error e => .error e
  | .ok () => .ok { name, geometry := g, sets := Array.replicate g.sets { ways := g.ways } }

/-- The number of address bits inside a block. -/
def offsetBits (c : Cache) : Nat := c.geometry.blockBytes.log2

/-- The number of address bits that select a set. -/
def indexBits (c : Cache) : Nat := c.sets.size.log2

/-- The block an address lies in. -/
def block (c : Cache) (addr : Word) : Nat := addr.toNat >>> c.offsetBits

/-- The set an address belongs to. -/
def index (c : Cache) (addr : Word) : Nat := c.block addr % (1 <<< c.indexBits)

/-- The tag that tells the blocks of a set apart. -/
def tag (c : Cache) (addr : Word) : Nat := c.block addr >>> c.indexBits

/-- The tags of a set, the least recently used first; none for a number that names no set. -/
def setTags (c : Cache) (i : Nat) : List Nat :=
  match c.sets[i]? with
  | some s => s.tags
  | none => []

/-- Whether the block of an address is resident. -/
def contains (c : Cache) (addr : Word) : Bool := (c.setTags (c.index addr)).contains (c.tag addr)

/-- The cache after an access: the block becomes the most recently used of its set. -/
def access (c : Cache) (addr : Word) : Cache :=
  if c.contains addr then
    { c with
      sets := c.sets.modify (c.index addr) (·.touch (c.tag addr))
      hits := c.hits + 1 }
  else
    { c with
      sets := c.sets.modify (c.index addr) (·.touch (c.tag addr))
      misses := c.misses + 1 }

/-- Presents an access: whether it hits, and the cache after it. No block is ever dirty, so that
what the access does makes no difference. -/
def serve (c : Cache) (a : CacheAccess) : Bool × Cache := (c.contains a.addr, c.access a.addr)

/-- Presents accesses one after the other: which of them hit, and the cache after the last. -/
def serveAll (c : Cache) : List CacheAccess → List Bool × Cache
  | [] => ([], c)
  | a :: rest =>
    let (hit, c) := c.serve a
    let (hits, c) := serveAll c rest
    (hit :: hits, c)

end Cache

end FiveStage
