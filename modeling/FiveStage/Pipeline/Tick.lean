import FiveStage.Pipeline.Basic
import FiveStage.Pipeline.Hazard
import FiveStage.Pipeline.Stage

/-!
# One clock cycle

The stages work from the last to the first, so that each takes over what the one before it held in
the cycle before. A data-cache miss freezes all of them. Hazards hold the instruction in decode and
send a bubble on. A jump, a taken branch or an exception throws away the wrong-path instruction
behind it and steers fetch.
-/

namespace FiveStage

/-- Why the instruction in decode has to stay there for a cycle. -/
inductive Hold
  /-- it needs a value that a load delivers only in the next cycle -/
  | loadUse
  /-- it is a branch or jump whose operands are not ready -/
  | control
  deriving DecidableEq, Repr

namespace Core

/-- Starts a cycle. -/
def countCycle (c : Core) : Core :=
  { c with
    machine.counters := { c.machine.counters with cycles := c.machine.counters.cycles + 1 } }

/-- Takes an exception: the first one steers fetch to the handler, a second one ends the run. -/
def raise (c : Core) : Core :=
  let c := { c with machine := c.machine.countException }
  if c.pipeline.control.exceptionRaised then { c with pipeline.status := .exception }
  else
    { c with
      pipeline.control :=
        { c.pipeline.control with exceptionRaised := true, redirect := some exceptionHandler } }

/-- Counts an instruction that is thrown away, if it is one. -/
def countSquash (c : Core) (i : Instruction) : Core :=
  if i.isFetched then
    { c with
      machine.counters := { c.machine.counters with squashed := c.machine.counters.squashed + 1 } }
  else c

/-- What throwing away a slot leaves in it. -/
def discard (i : Instruction) : Instruction := if i.isFetched then i.squash else i

/-- A cycle of an outstanding data-cache miss: nothing moves but the stall counts. -/
def frozenCycle (c : Core) : Core :=
  { machine :=
      { c.machine with
        counters :=
          { c.machine.counters with
            dcacheStallCycles := c.machine.counters.dcacheStallCycles + 1 } }
    pipeline :=
      { c.pipeline with
        slots := { c.pipeline.slots with writeback := .bubble }
        control :=
          { c.pipeline.control with
            memStall := c.pipeline.control.memStall - 1
            fetchStall := c.pipeline.control.fetchStall - 1 } } }

/-- The status after an instruction has retired: the halt word ends the run. -/
def statusAfter (c : Core) (i : Instruction) : RunStatus :=
  if i.isLive && i.flags.halt then
    if c.pipeline.control.exceptionRaised then .exception else .halt
  else c.pipeline.status

/-- The instruction that has passed the memory stage retires. -/
def writebackPhase (c : Core) : Core :=
  let i := c.pipeline.slots.memory
  { machine := c.machine.writebackStage i
    pipeline :=
      { c.pipeline with
        slots := { c.pipeline.slots with writeback := i }
        status := c.statusAfter i } }

/-- The first exception was raised behind the instruction in decode, which is thrown away. -/
def flushDecode (c : Core) : Core :=
  let i := c.pipeline.slots.decode
  let c := c.countSquash i
  { c with
    pipeline.slots := { c.pipeline.slots with decode := discard i }
    pipeline.control := { c.pipeline.control with controlPending := false } }

/-- The executed instruction accesses memory. -/
def memoryPhase (c : Core) : Core :=
  let i := c.pipeline.slots.execute.forwardStoreData c.pipeline.slots.writeback
  let hit := c.machine.accessHits i
  let (i, machine) := c.machine.memoryStage i
  let stall := if hit then c.pipeline.control.memStall else machine.dcache.geometry.missLatency
  let c : Core :=
    { machine
      pipeline :=
        { c.pipeline with
          slots := { c.pipeline.slots with memory := i }
          control := { c.pipeline.control with memStall := stall } } }
  if i.memFault then
    if c.pipeline.control.exceptionRaised then c.raise else c.raise.flushDecode
  else c

/-- Why the instruction in decode cannot move on in this cycle, if it cannot. -/
def hold? (c : Core) : Option Hold :=
  if c.pipeline.control.controlPending then some .control
  else if loadUseHazard c.pipeline.slots.memory c.pipeline.slots.decode then some .loadUse
  else none

/-- Counts a cycle in which decode has to wait. -/
def countHold (c : Core) (h : Hold) : Core :=
  match h with
  | .loadUse =>
    { c with
      machine.counters :=
        { c.machine.counters with loadUseStalls := c.machine.counters.loadUseStalls + 1 } }
  | .control =>
    { c with
      machine.counters :=
        { c.machine.counters with controlStalls := c.machine.counters.controlStalls + 1 } }

/-- The instruction in decode waits, and a bubble takes its place in execute. It takes over the
result that retires, which would be gone in the next cycle. -/
def holdPhase (c : Core) (h : Hold) : Core :=
  let c := c.countHold h
  let slots := c.pipeline.slots
  { c with
    pipeline.slots :=
      { slots with
        decode := slots.decode.forward slots.writeback .writeback
        execute := .bubble } }

/-- The decoded instruction executes with the latest values of its operands. -/
def executePhase (c : Core) : Core :=
  let slots := c.pipeline.slots
  let i := (slots.decode.forward slots.writeback .writeback).forward slots.memory .memory
  { c with pipeline.slots := { slots with execute := i.executed } }

/-- Whether decode can take over what fetch holds. -/
def fetchReady (c : Core) : Bool :=
  c.pipeline.control.redirect.isSome || c.pipeline.control.fetchStall = 0

/-- Fetch switches to another address, and the wrong-path instruction it holds is thrown away. -/
def redirectPhase (c : Core) (target : Word) : Core :=
  let i := c.pipeline.slots.fetch
  let c := c.countSquash i
  { machine := { c.machine with pc := target }
    pipeline :=
      { c.pipeline with
        slots := { c.pipeline.slots with decode := discard i }
        control :=
          { c.pipeline.control with
            redirect := none
            fetchStall := 0
            fetchHalted := false } } }

/-- Decode waits for an outstanding fetch. -/
def awaitFetch (c : Core) : Core :=
  { machine :=
      { c.machine with
        counters :=
          { c.machine.counters with
            icacheStallCycles := c.machine.counters.icacheStallCycles + 1 } }
    pipeline :=
      { c.pipeline with slots := { c.pipeline.slots with decode := .bubble } } }

/-- Puts an instruction into the decode slot. -/
def setDecode (c : Core) (i : Instruction) : Core :=
  { c with pipeline.slots := { c.pipeline.slots with decode := i } }

/-- What a freshly decoded instruction asks of the pipeline: an exception for an illegal word, rest
for fetch behind the halt word, a wait for operands, or a switch to the target of a jump. -/
def dispatch (c : Core) (i : Instruction) : Core :=
  if !i.flags.legal then c.raise
  else if i.flags.halt then
    { c with pipeline.control := { c.pipeline.control with fetchHalted := true } }
  else if i.needsOperands then
    { c with pipeline.control := { c.pipeline.control with controlPending := true } }
  else if i.nextPc ≠ i.fallThrough then
    { c with pipeline.control := { c.pipeline.control with redirect := some i.nextPc } }
  else c

/-- Decode takes over what fetch holds, once its own instruction has moved on. -/
def decodePhase (c : Core) : Core :=
  match c.pipeline.control.redirect with
  | some target => c.redirectPhase target
  | none =>
    if 0 < c.pipeline.control.fetchStall then c.awaitFetch
    else if c.pipeline.slots.fetch.status = .idle then c.setDecode .idle
    else
      let (i, machine) := c.machine.decodeStage c.pipeline.slots.fetch
      ({ c with machine }.dispatch i).setDecode i

/-- A branch or jump that waits in decode is resolved when its operands are ready. -/
def resolvePhase (c : Core) : Core :=
  let slots := c.pipeline.slots
  if c.pipeline.control.controlPending
      && controlReady slots.decode slots.execute slots.memory then
    let i := (slots.decode.forward slots.writeback .writeback).forward slots.memory .memory
    let i := { i with nextPc := i.successor }
    { c with
      pipeline.slots := { slots with decode := i }
      pipeline.control :=
        { c.pipeline.control with
          controlPending := false
          redirect :=
            if i.nextPc ≠ i.fallThrough then some i.nextPc else c.pipeline.control.redirect } }
  else c

/-- Fetch brings in the next word, unless it rests behind the halt word. Behind a branch that is not
resolved or a redirect the word is speculative. -/
def fetchPhase (c : Core) : Core :=
  let control := c.pipeline.control
  if control.fetchHalted then
    { c with pipeline.slots := { c.pipeline.slots with fetch := .idle } }
  else
    let status : SlotStatus :=
      if control.controlPending || control.redirect.isSome then .speculative else .normal
    let hit := c.machine.fetchHits
    let (i, machine) := c.machine.fetchStage status
    let stall := if hit then control.fetchStall else machine.icache.geometry.missLatency
    { machine
      pipeline :=
        { c.pipeline with
          slots := { c.pipeline.slots with fetch := i }
          control := { control with fetchStall := stall } } }

/-- Fetch waits; a cycle of an outstanding miss passes. -/
def fetchWait (c : Core) : Core :=
  { c with
    pipeline.control :=
      { c.pipeline.control with fetchStall := c.pipeline.control.fetchStall - 1 } }

/-- The first half of a cycle that is not frozen: what has passed the memory stage retires, and what
has been executed accesses memory. -/
def retireHalf (c : Core) : Core := c.writebackPhase.memoryPhase

/-- The second half of a cycle that is not frozen: execute, decode and fetch. -/
def issueHalf (c : Core) : Core :=
  match c.hold? with
  | some h => (c.holdPhase h).resolvePhase.fetchWait
  | none =>
    let c := c.executePhase
    let ready := c.fetchReady
    let c := c.decodePhase.resolvePhase
    if ready then c.fetchPhase else c.fetchWait

/-- A cycle in which the pipeline is not frozen. -/
def movingCycle (c : Core) : Core := c.retireHalf.issueHalf

/-- One clock cycle. Nothing happens once the run has ended. -/
def tick (c : Core) : Core :=
  if c.pipeline.status.isTerminal then c
  else
    let c := c.countCycle
    if 0 < c.pipeline.control.memStall then c.frozenCycle else c.movingCycle

/-- Runs for at most `n` cycles, until the run ends. -/
def runTicks : Nat → Core → Core
  | 0, c => c
  | n + 1, c => if c.pipeline.status.isTerminal then c else runTicks n c.tick

/-- Runs the pipeline for a budget of cycles; zero runs until the program ends. -/
def runCycles (c : Core) (budget : Nat) : Core := runTicks (budgetLimit budget) c

end Core

end FiveStage
