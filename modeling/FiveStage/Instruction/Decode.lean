import FiveStage.Instruction.Basic

/-!
# Decoding

Decoding never fails: a word that is no instruction gives a record whose flags are all clear.
-/

namespace FiveStage

/-- The class of a word that is an instruction. -/
def InstWord.class? (w : InstWord) : Option Opcode :=
  match Opcode.ofCode? w.opcode with
  | some o => if o.accepts w.funct3 w.funct7 then some o else none
  | none => none

/-- The flags of a word. The halt word and the no-op have flags of their own. -/
def InstWord.flags (w : InstWord) : Flags :=
  if w = InstWord.halt then { legal := true, halt := true }
  else if w = InstWord.nop then { legal := true, nop := true }
  else
    match w.class? with
    | some o => o.flags
    | none => {}

/-- The immediate of a word; zero for the halt word, the no-op and a word that is no
instruction. -/
def InstWord.immediate (w : InstWord) : Word :=
  if w = InstWord.halt ∨ w = InstWord.nop then 0
  else
    match w.class? with
    | some o => o.format.immediate w
    | none => 0

/-- The record of a word fetched from `pc`. -/
def decode (pc : Word) (raw : InstWord) : Instruction :=
  { pc, raw
    opcode := raw.opcode
    funct3 := raw.funct3
    funct7 := raw.funct7
    rd := raw.rd
    rs1 := raw.rs1
    rs2 := raw.rs2
    imm := raw.immediate
    flags := raw.flags
    nextPc := pc + .ofNat 64 instructionBytes
    status := .normal }

end FiveStage
