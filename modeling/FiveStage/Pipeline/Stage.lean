import FiveStage.Machine.Step

/-!
# The stages

What each stage does to one instruction and to the machine. Slots that hold no work pass through
unchanged.
-/

namespace FiveStage

/-- Fills in the result and the address of a live instruction. -/
def Instruction.executed (i : Instruction) : Instruction :=
  if i.isLive && i.flags.legal then
    let i := { i with arithResult := if i.flags.arithLogic then i.compute else i.arithResult }
    i.withAddress
  else i

namespace Machine

/-- Fetches the word at the program counter and moves on to the next. -/
def fetchStage (m : Machine) (status : SlotStatus) : Instruction × Machine :=
  (.fetched m.pc (m.fetchWord m.pc) status,
    { m with icache := m.icache.access m.pc, pc := m.pc + .ofNat 64 instructionBytes })

/-- Whether the next fetch finds its block in the instruction cache. -/
def fetchHits (m : Machine) : Bool := m.icache.contains m.pc

/-- Decodes and numbers a fetched word, reads its operands and resolves a jump that needs none. -/
def decodeStage (m : Machine) (i : Instruction) : Instruction × Machine :=
  if i.isFetched then
    let d := { decode i.pc i.raw with id := m.nextId }.withOperands m.regs
    let d := if d.flags.legal && d.class? = some .jal then { d with nextPc := d.successor } else d
    (d, { m with nextId := m.nextId + 1 })
  else (i, m)

/-- Whether the instruction is a live load or store. -/
def accessesMemory (i : Instruction) : Bool := i.isLive && (i.isLoad || i.isStore)

/-- Whether the access of an instruction finds its block in the data cache. An instruction without
an access, or with one that fails, does not ask the cache and counts as a hit. -/
def accessHits (m : Machine) (i : Instruction) : Bool :=
  if accessesMemory i && decide (i.Fits m.memory) then m.dcache.contains i.memAddress else true

/-- Performs the access of a live load or store; one that does not fit marks the instruction as
faulted and changes nothing. -/
def memoryStage (m : Machine) (i : Instruction) : Instruction × Machine :=
  if accessesMemory i then
    if i.Fits m.memory then
      ({ i with memResult := i.loaded m.memory },
        { m with memory := i.stored m.memory, dcache := m.dcache.access i.memAddress })
    else ({ i with memFault := true }, m)
  else (i, m)

/-- Commits and counts a live instruction. -/
def writebackStage (m : Machine) (i : Instruction) : Machine :=
  if i.isLive then
    { m with
      regs := i.commit m.regs
      counters := { m.counters with instructions := m.counters.instructions + 1 } }
  else m

end Machine

end FiveStage
