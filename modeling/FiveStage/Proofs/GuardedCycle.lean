import FiveStage.Proofs.GuardedUnits
import FiveStage.Proofs.RetireHalf

/-! # Guarded steps and cycles

A functional step and a clock cycle that run on the guarded units and guard their decrements. A core
is sound (`Core.Sound`) when its caches are, its memory has a 64-bit size and its slots name
registers that exist. On a sound core a guarded step does what a step does (`step_eq`), and so does
each guarded phase of a cycle. -/

namespace FiveStage

/-- What the operations of a machine rely on. -/
structure Machine.Sound (m : Machine) : Prop where
  icache : m.icache.Sound
  dcache : m.dcache.Sound
  memory : m.memory.size < 2 ^ 64

/-- What the operations of a core rely on: its slots, as far as they will commit, name registers
that exist. -/
structure Core.Sound (c : Core) : Prop where
  machine : c.machine.Sound
  fetch : c.pipeline.slots.fetch.rd < registerCount
  decode : c.pipeline.slots.decode.rd < registerCount
  execute : c.pipeline.slots.execute.rd < registerCount
  memory : c.pipeline.slots.memory.rd < registerCount

theorem Core.memoryPhase_eq (c : Core) :
    c.memoryPhase =
      if c.accessPhase.pipeline.slots.memory.memFault then
        if c.pipeline.control.exceptionRaised then c.accessPhase.raise
        else c.accessPhase.raise.flushDecode
      else c.accessPhase := rfl

namespace Guarded

section Steps

/-- The word at an address; zero outside the memory. -/
def fetchWord (m : Machine) (pc : Word) : Guarded InstWord := do
  let loaded ← load m.memory pc .word
  match loaded with
  | .ok v => return v.setWidth 32
  | .error _ => return 0

/-- The instruction with the result of the arithmetic unit filled in. -/
def withArithmetic (i : Instruction) : Guarded Instruction :=
  if i.flags.arithLogic then do
    let arithResult ← arithmetic i
    return { i with arithResult }
  else .ok i

/-- The memory access of an instruction, the commit of its result and the move to its successor. -/
def complete (m : Machine) (i : Instruction) : Guarded (Instruction × Machine) :=
  if i.flags.readsMem || i.flags.writesMem then do
    let accessed ← access m.memory i
    match accessed with
    | .ok (memResult, memory) =>
      let i := { i with memResult }
      let regs ← commit m.regs i
      return (i, { m with regs, pc := i.nextPc, memory })
    | .error _ => return ({ i with memFault := true }, m.countException)
  else do
    let regs ← commit m.regs i
    return (i, { m with regs, pc := i.nextPc })

/-- Runs the instruction at the program counter to its end. -/
def step (m : Machine) : Guarded (Instruction × Machine) := do
  let raw ← fetchWord m m.pc
  let i ← decode raw m.pc
  let i := { i with id := m.nextId }
  let m := m.counted
  if !i.flags.legal then return (i, m.countException)
  else if i.flags.halt then return (i, m)
  else
    let i ← withOperands m.regs i
    let i ← withArithmetic { i with nextPc := i.successor }
    complete m i.withAddress

end Steps

section Cycles

/-- Commits and counts a live instruction. -/
def writebackStage (m : Machine) (i : Instruction) : Guarded Machine :=
  if i.isLive then do
    let regs ← commit m.regs i
    return { m with
      regs
      counters := { m.counters with instructions := m.counters.instructions + 1 } }
  else .ok m

/-- Performs the access of a live load or store: the instruction, whether its block was resident,
and the machine. -/
def memoryStage (m : Machine) (i : Instruction) : Guarded (Instruction × Bool × Machine) :=
  if Machine.accessesMemory i then do
    let accessed ← access m.memory i
    match accessed with
    | .ok (memResult, memory) =>
      let (hit, dcache) ← present i.memAddress m.dcache
      return ({ i with memResult }, hit, { m with memory, dcache })
    | .error _ => return ({ i with memFault := true }, true, m)
  else .ok (i, true, m)

/-- Fills in the result and the address of a live instruction. -/
def executeStage (i : Instruction) : Guarded Instruction :=
  if i.isLive && i.flags.legal then do
    let i ← withArithmetic i
    return i.withAddress
  else .ok i

/-- Decodes and numbers a fetched word. -/
def decodeStage (m : Machine) (i : Instruction) : Guarded (Instruction × Machine) :=
  if i.isFetched then do
    let d ← decode i.raw i.pc
    let d ← withOperands m.regs { d with id := m.nextId }
    let d := if d.flags.legal && d.class? = some .jal then { d with nextPc := d.successor } else d
    return (d, { m with nextId := m.nextId + 1 })
  else .ok (i, m)

/-- Fetches the word at the program counter: the slot, whether the block was resident, and the
machine. -/
def fetchStage (m : Machine) (status : SlotStatus) : Guarded (Instruction × Bool × Machine) := do
  let raw ← fetchWord m m.pc
  let (hit, icache) ← present m.pc m.icache
  return (.fetched m.pc raw status, hit, { m with icache, pc := m.pc + .ofNat 64 instructionBytes })

variable (c : Core)

/-- A cycle of an outstanding data-cache miss. -/
def frozenCycle : Guarded Core := do
  let memStall ← subtract c.pipeline.control.memStall 1
  return { c.frozenCycle with pipeline.control.memStall := memStall }

/-- The instruction that has passed the memory stage retires. -/
def writebackPhase : Guarded Core := do
  let machine ← writebackStage c.machine c.pipeline.slots.memory
  return { c.writebackPhase with machine }

/-- The executed instruction accesses memory. -/
def accessPhase : Guarded Core := do
  let i := c.pipeline.slots.execute.forwardStoreData c.pipeline.slots.writeback
  let (i, hit, machine) ← memoryStage c.machine i
  let stall := if hit then c.pipeline.control.memStall else machine.dcache.geometry.missLatency
  return {
    machine
    pipeline :=
      { c.pipeline with
        slots := { c.pipeline.slots with memory := i }
        control := { c.pipeline.control with memStall := stall } } }

/-- The executed instruction accesses memory, and a failing access raises an exception. -/
def memoryPhase : Guarded Core := do
  let c ← accessPhase c
  if c.pipeline.slots.memory.memFault then
    if c.pipeline.control.exceptionRaised then return c.raise else return c.raise.flushDecode
  else return c

/-- The decoded instruction executes with the latest values of its operands. -/
def executePhase : Guarded Core := do
  let slots := c.pipeline.slots
  let i := (slots.decode.forward slots.writeback .writeback).forward slots.memory .memory
  let i ← executeStage i
  return { c with pipeline.slots := { slots with execute := i } }

/-- Decode takes over what fetch holds. -/
def decodePhase : Guarded Core :=
  match c.pipeline.control.redirect with
  | some target => .ok (c.redirectPhase target)
  | none =>
    if 0 < c.pipeline.control.fetchStall then .ok c.awaitFetch
    else if c.pipeline.slots.fetch.status = .idle then .ok (c.setDecode .idle)
    else do
      let (i, machine) ← decodeStage c.machine c.pipeline.slots.fetch
      return ({ c with machine }.dispatch i).setDecode i

/-- Fetch brings in the next word, unless it rests. -/
def fetchPhase : Guarded Core :=
  let control := c.pipeline.control
  if control.fetchHalted then
    .ok { c with pipeline.slots := { c.pipeline.slots with fetch := .idle } }
  else do
    let status : SlotStatus :=
      if control.controlPending || control.redirect.isSome then .speculative else .normal
    let (i, hit, machine) ← fetchStage c.machine status
    let stall := if hit then control.fetchStall else machine.icache.geometry.missLatency
    return {
      machine
      pipeline :=
        { c.pipeline with
          slots := { c.pipeline.slots with fetch := i }
          control := { control with fetchStall := stall } } }

/-- Fetch waits; a cycle of an outstanding miss passes, if there is one. -/
def fetchWait : Guarded Core :=
  if 0 < c.pipeline.control.fetchStall then do
    let fetchStall ← subtract c.pipeline.control.fetchStall 1
    return { c with pipeline.control := { c.pipeline.control with fetchStall } }
  else .ok c

/-- The second half of a cycle that is not frozen. -/
def issueHalf : Guarded Core :=
  match c.hold? with
  | some h => fetchWait (c.holdPhase h).resolvePhase
  | none => do
    let c ← executePhase c
    let ready := c.fetchReady
    let c ← decodePhase c
    if ready then fetchPhase c.resolvePhase else fetchWait c.resolvePhase

/-- One clock cycle. -/
def tick : Guarded Core :=
  if c.pipeline.status.isTerminal then .ok c
  else
    let c := c.countCycle
    if 0 < c.pipeline.control.memStall then frozenCycle c
    else do
      let c ← writebackPhase c
      let c ← memoryPhase c
      issueHalf c

end Cycles

section StepEquations

variable {m : Machine} {i : Instruction}

theorem fetchWord_eq (hm : m.memory.size < 2 ^ 64) (pc : Word) :
    fetchWord m pc = .ok (m.fetchWord pc) := by
  rw [fetchWord, load_eq m.memory pc hm, ok_bind, Memory.load, Machine.fetchWord]
  have hbytes : Width.word.bytes = 4 := rfl
  rw [hbytes]
  by_cases hc : m.memory.Contains pc 4
  · rw [if_pos hc, if_pos hc]; rfl
  · rw [if_neg hc, if_neg hc]; rfl

theorem withArithmetic_eq (i : Instruction) :
    withArithmetic i =
      .ok { i with arithResult := if i.flags.arithLogic then i.compute else i.arithResult } := by
  rw [withArithmetic, arithmetic_eq]
  cases i.flags.arithLogic <;> rfl

theorem executeStage_eq (i : Instruction) : executeStage i = .ok i.executed := by
  rw [executeStage, withArithmetic_eq, Instruction.executed]
  split <;> rfl

theorem complete_eq (hm : m.memory.size < 2 ^ 64) (hrd : i.rd < registerCount) :
    complete m i = .ok (m.complete i) := by
  -- what is committed after an access is the instruction with the loaded value
  have hloaded : commit m.regs { i with memResult := i.loaded m.memory } = _ :=
    commit_eq m.regs (i := { i with memResult := i.loaded m.memory }) hrd
  rw [complete, Machine.complete, access_eq m.memory hm, ok_bind, Instruction.access,
    commit_eq m.regs hrd]
  split
  next =>
    by_cases hfit : i.Fits m.memory
    · simp only [if_pos hfit, hloaded, ok_bind, pure_eq]
      rfl
    · simp only [if_neg hfit, pure_eq]
  next => rfl

/-- A functional step does not abort. -/
theorem step_eq (h : m.Sound) : step m = .ok m.step := by
  have hcurrent :
      { FiveStage.decode m.pc (m.fetchWord m.pc) with id := m.nextId } = m.current := rfl
  have hrd : (m.current.withOperands m.regs).withResults.withAddress.rd < registerCount := by
    rw [Instruction.withAddress_eq]
    exact Instruction.rd_lt (m.fetchWord m.pc)
  rw [step, fetchWord_eq h.memory, ok_bind, decode_eq, ok_bind, hcurrent, Machine.step]
  simp only
  split
  · rfl
  split
  · rfl
  rw [withOperands_eq _ (InstWord.rs1_lt _) (InstWord.rs2_lt _), ok_bind, withArithmetic_eq,
    ok_bind]
  exact complete_eq h.memory hrd

end StepEquations

section CycleEquations

variable {m : Machine} {i : Instruction} {c : Core}

theorem writebackStage_eq (hrd : i.rd < registerCount) :
    writebackStage m i = .ok (m.writebackStage i) := by
  rw [writebackStage, Machine.writebackStage, commit_eq m.regs hrd]
  split <;> rfl

theorem memoryStage_eq (h : m.Sound) :
    memoryStage m i = .ok ((m.memoryStage i).1, m.accessHits i, (m.memoryStage i).2) := by
  rw [memoryStage, Machine.memoryStage, Machine.accessHits, access_eq m.memory h.memory, ok_bind,
    Instruction.access]
  by_cases hacc : Machine.accessesMemory i = true
  · by_cases hfit : i.Fits m.memory
    · simp [hacc, hfit, present_eq i.memAddress h.dcache]
    · simp [hacc, hfit]
  · simp [hacc]

theorem decodeStage_eq (m : Machine) (i : Instruction) :
    decodeStage m i = .ok (m.decodeStage i) := by
  rw [decodeStage, Machine.decodeStage, decode_eq, ok_bind,
    withOperands_eq _ (InstWord.rs1_lt i.raw) (InstWord.rs2_lt i.raw), ok_bind]
  split <;> rfl

theorem fetchStage_eq (h : m.Sound) (status : SlotStatus) :
    fetchStage m status = .ok ((m.fetchStage status).1, m.fetchHits, (m.fetchStage status).2) := by
  rw [fetchStage, fetchWord_eq h.memory, ok_bind, present_eq m.pc h.icache]
  rfl

theorem frozenCycle_eq (hstall : 0 < c.pipeline.control.memStall) :
    frozenCycle c = .ok c.frozenCycle := by
  rw [frozenCycle, subtract_eq hstall]
  rfl

theorem writebackPhase_eq (h : c.Sound) : writebackPhase c = .ok c.writebackPhase := by
  rw [writebackPhase, writebackStage_eq h.memory]
  rfl

theorem accessPhase_eq (h : c.Sound) : accessPhase c = .ok c.accessPhase := by
  rw [accessPhase, memoryStage_eq h.machine]
  rfl

theorem memoryPhase_eq (h : c.Sound) : memoryPhase c = .ok c.memoryPhase := by
  have hraised : c.accessPhase.pipeline.control.exceptionRaised =
      c.pipeline.control.exceptionRaised := rfl
  rw [memoryPhase, accessPhase_eq h, ok_bind, Core.memoryPhase_eq, hraised]
  split
  · split <;> rfl
  · rfl

theorem executePhase_eq (c : Core) : executePhase c = .ok c.executePhase := by
  rw [executePhase, executeStage_eq]
  rfl

theorem decodePhase_eq (c : Core) : decodePhase c = .ok c.decodePhase := by
  rw [decodePhase, Core.decodePhase, decodeStage_eq]
  cases c.pipeline.control.redirect with
  | some target => rfl
  | none =>
    simp only
    split
    · rfl
    · split <;> rfl

theorem fetchPhase_eq (h : c.machine.Sound) : fetchPhase c = .ok c.fetchPhase := by
  unfold fetchPhase Core.fetchPhase
  simp only [fetchStage_eq h, ok_bind, pure_eq]
  split <;> rfl

theorem fetchWait_eq (c : Core) : fetchWait c = .ok c.fetchWait := by
  unfold fetchWait
  split
  next hstall => rw [subtract_eq hstall]; rfl
  next hstall =>
    have hsame : c.pipeline.control.fetchStall - 1 = c.pipeline.control.fetchStall := by omega
    rw [Core.fetchWait, hsame]

end CycleEquations

end Guarded

end FiveStage
