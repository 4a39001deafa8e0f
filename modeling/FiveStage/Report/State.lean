import FiveStage.Instruction.RegisterName
import FiveStage.Machine.Basic
import FiveStage.Memory.Dump

/-!
# Reports of the final state

The register file, a range of the memory and the two caches as text, each section between rules.
-/

namespace FiveStage

/-- The rule around the heading of a section. -/
def rule : String := "---------------------\n"

/-- A heading between two rules. -/
def heading (text : String) : String := rule ++ text ++ "\n" ++ rule

/-- Every register but register 0, with its value in sixteen digits. -/
def Registers.report (r : Registers) : String :=
  heading "Begin Register Values"
    ++ String.join ((List.range' 1 (registerCount - 1)).map fun i =>
      "$" ++ registerName i ++ " = 0x" ++ Text.hexPadded 16 (r.read i).toNat ++ "\n")
    ++ heading "End Register Values"

/-- A range of the memory. -/
def Memory.report (m : Memory) (start stop : Word) : String :=
  heading "Begin Memory State" ++ m.dump start stop ++ heading "End Memory State"

/-- The shape of a cache and its hits and misses. -/
def Cache.report (c : Cache) : String :=
  heading ("Begin " ++ c.name ++ " State")
    ++ "Cache Configuration:\n"
    ++ "Size: " ++ Text.decimal c.geometry.sizeBytes ++ " bytes\n"
    ++ "Block Size: " ++ Text.decimal c.geometry.blockBytes ++ " bytes\n"
    ++ "Ways: " ++ Text.decimal c.geometry.ways ++ "\n"
    ++ "Sets: " ++ Text.decimal c.sets.size ++ "\n"
    ++ "Miss Latency: " ++ Text.decimal c.geometry.missLatency ++ " cycles\n"
    ++ "Hits: " ++ Text.decimal c.hits ++ "\n"
    ++ "Misses: " ++ Text.decimal c.misses ++ "\n"
    ++ heading ("End " ++ c.name ++ " State")

/-- The instruction cache, then the data cache. -/
def Machine.cacheReport (m : Machine) : String := m.icache.report ++ m.dcache.report

end FiveStage
