import FiveStage.Instruction.Assembly
import FiveStage.Pipeline.Basic

/-!
# The pipeline diagram

One line per cycle: the number of the cycle, the address in fetch, and what every later stage holds,
each in a column of its own.
-/

namespace FiveStage

/-- The width of a stage in the diagram. -/
def stageWidth : Nat := 25

/-- What a stage behind fetch holds: the assembly text of work, and a no-op for all else. -/
def Instruction.stageText (i : Instruction) : String :=
  " " ++ (if i.isFetched then i.raw.assembly else "NOP") ++ i.status.label

/-- What fetch holds: the address. -/
def Instruction.fetchText (i : Instruction) : String :=
  " Inst at " ++ Text.hex i.pc.toNat ++ i.status.label

/-- A column of the diagram. -/
def diagramColumn (text : String) : String := "|" ++ Text.padRight stageWidth text

/-- The line of a cycle. -/
def Snapshot.line (s : Snapshot) : String :=
  "Cycle: " ++ Text.padLeft 8 ' ' (Text.decimal s.cycle) ++ "\t|"
    ++ diagramColumn s.slots.fetch.fetchText
    ++ diagramColumn s.slots.decode.stageText
    ++ diagramColumn s.slots.execute.stageText
    ++ diagramColumn s.slots.memory.stageText
    ++ diagramColumn s.slots.writeback.stageText
    ++ "|"

end FiveStage
