import FiveStage.Text.FixedPoint

/-!
# Run statistics

What a run counts, and its two renderings: the statistics file and the sections of the console
summary.
-/

namespace FiveStage

/-- What the machine counts itself. -/
structure Counters where
  /-- simulated cycles -/
  cycles : Nat := 0
  /-- instructions that have completed -/
  instructions : Nat := 0
  /-- cycles lost to a value that a load had not delivered yet -/
  loadUseStalls : Nat := 0
  /-- cycles lost to a branch or jump waiting for its operands -/
  controlStalls : Nat := 0
  /-- cycles in which a data-cache miss froze the pipeline -/
  dcacheStallCycles : Nat := 0
  /-- cycles in which an instruction-cache miss kept decode empty -/
  icacheStallCycles : Nat := 0
  /-- wrong-path instructions thrown away -/
  squashed : Nat := 0
  /-- illegal instructions and memory faults -/
  exceptions : Nat := 0
  deriving DecidableEq, Repr, Inhabited

/-- The counters of a machine together with those of its caches. -/
structure Stats extends Counters where
  icacheHits : Nat := 0
  icacheMisses : Nat := 0
  dcacheHits : Nat := 0
  dcacheMisses : Nat := 0
  deriving DecidableEq, Repr, Inhabited

namespace Stats

/-- A quotient of two counts; zero when the second is. -/
def ratio (part whole : Nat) : Float :=
  if whole = 0 then 0 else part.toUInt64.toFloat / whole.toUInt64.toFloat

/-- A quotient of two counts in percent; zero when the second is. -/
def percent (part whole : Nat) : Float :=
  if whole = 0 then 0 else part.toUInt64.toFloat / whole.toUInt64.toFloat * 100

/-- Cycles per instruction. -/
def cpi (s : Stats) : Float := ratio s.cycles s.instructions

/-- A line of the statistics file. -/
def reportLine (label : String) (value : Nat) : String :=
  Text.padRight 23 label ++ Text.decimal value ++ "\n"

/-- The statistics file. -/
def report (s : Stats) : String :=
  reportLine "Dynamic instructions: " s.instructions
    ++ reportLine "Total cycles: " s.cycles
    ++ reportLine "I-cache hits: " s.icacheHits
    ++ reportLine "I-cache misses: " s.icacheMisses
    ++ reportLine "D-cache hits: " s.dcacheHits
    ++ reportLine "D-cache misses: " s.dcacheMisses
    ++ reportLine "Load-use stalls: " s.loadUseStalls

/-- The names of the sections of the console summary. -/
def sectionNames : List String := ["summary", "pipeline", "memory"]

/-- The double rule of the console summary. -/
def doubleRule : String := "==========================================================\n"

/-- The single rule of the console summary. -/
def singleRule : String := "----------------------------------------------------------\n"

/-- The summary section. -/
def summarySection (s : Stats) : String :=
  "\n" ++ doubleRule ++ "PIPELINE SIMULATION STATISTICS\n" ++ doubleRule
    ++ "sim_cycles               " ++ Text.decimal s.cycles ++ "\n"
    ++ "sim_insts                " ++ Text.decimal s.instructions ++ "\n"
    ++ "sim_cpi                  " ++ Text.fixedPoint 4 s.cpi ++ "\n"
    ++ singleRule

/-- A line with a count of stall cycles and their share of all cycles. -/
def stallLine (s : Stats) (label : String) (value : Nat) : String :=
  "  " ++ Text.padRight 22 label ++ " " ++ Text.decimal value ++ " ("
    ++ Text.fixedPoint 2 (percent value s.cycles) ++ "%)\n"

/-- A line with a count. -/
def countLine (label : String) (value : Nat) : String :=
  "  " ++ Text.padRight 22 label ++ " " ++ Text.decimal value ++ "\n"

/-- The pipeline section. -/
def pipelineSection (s : Stats) : String :=
  "PIPELINE\n" ++ s.stallLine "stalls.load_use" s.loadUseStalls
    ++ s.stallLine "stalls.control" s.controlStalls
    ++ s.stallLine "stalls.icache" s.icacheStallCycles
    ++ s.stallLine "stalls.dcache" s.dcacheStallCycles
    ++ countLine "squashed" s.squashed
    ++ countLine "exceptions" s.exceptions
    ++ singleRule

/-- A line with the traffic of a cache. -/
def cacheLine (name : String) (hits misses : Nat) : String :=
  "  " ++ Text.padRight 6 name ++ " accesses: " ++ Text.padRight 10 (Text.decimal (hits + misses))
    ++ " | hit: " ++ Text.padRight 10 (Text.decimal hits)
    ++ " miss: " ++ Text.padRight 10 (Text.decimal misses)
    ++ " | miss_rate: " ++ Text.fixedPoint 2 (percent misses (hits + misses)) ++ "%\n"

/-- The memory section. -/
def memorySection (s : Stats) : String :=
  "MEMORY HIERARCHY\n" ++ cacheLine "L1-I" s.icacheHits s.icacheMisses
    ++ cacheLine "L1-D" s.dcacheHits s.dcacheMisses ++ doubleRule

/-- The console summary: the sections that are asked for, or all of them when none is. -/
def summary (s : Stats) (sections : List String) : String :=
  let wanted (name : String) : Bool := sections.isEmpty || sections.contains name
  (if wanted "summary" then s.summarySection else "")
    ++ (if wanted "pipeline" then s.pipelineSection else "")
    ++ (if wanted "memory" then s.memorySection else "")

end Stats

end FiveStage
