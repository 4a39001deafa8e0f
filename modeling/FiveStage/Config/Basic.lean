import FiveStage.Cache.Geometry
import FiveStage.Memory.Basic

/-!
# Configuration

What a run is set up from: the execution model, the memory, the range to dump and the two caches.
-/

namespace FiveStage

/-- The largest memory in bytes. -/
def maxMemorySize : Nat := 0x10000000

/-- The execution models. -/
inductive RunMode
  /-- one instruction at a time, without timing -/
  | functional
  /-- the five-stage pipeline -/
  | pipelined
  deriving DecidableEq, Repr, Inhabited

/-- The settings of a run. -/
structure Config where
  mode : RunMode := .pipelined
  /-- the address of the first instruction -/
  startPc : Word := 0
  memoryBase : Word := 0
  memorySize : Nat := 0x10000
  dumpStart : Word := 0
  dumpEnd : Word := 0x1F4
  /-- a file of addresses and words that is applied after the program is loaded -/
  initImage : Option String := none
  instructionCache : Geometry := {}
  dataCache : Geometry := {}
  deriving DecidableEq, Repr, Inhabited

namespace Config

/-- The name of the instruction cache. -/
def instructionCacheName : String := "I-cache"

/-- The name of the data cache. -/
def dataCacheName : String := "D-cache"

/-- Checks the settings and reports the first that is rejected: the instruction cache, the data
cache, the size of the memory, the range to dump. -/
def validate (c : Config) : Except ConfigError Unit :=
  match c.instructionCache.validate instructionCacheName with
  | .error e => .error e
  | .ok () =>
    match c.dataCache.validate dataCacheName with
    | .error e => .error e
    | .ok () =>
      if c.memorySize = 0 then .error (.zero "memory" "size")
      else if maxMemorySize < c.memorySize then
        .error (.tooLarge "memory" "size" c.memorySize maxMemorySize)
      else if c.dumpEnd ≤ c.dumpStart then .error (.dumpRange c.dumpStart c.dumpEnd)
      else .ok ()

end Config

end FiveStage
