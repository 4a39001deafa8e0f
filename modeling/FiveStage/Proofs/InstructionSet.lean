import Mathlib.Algebra.Group.Int.Defs
import Mathlib.Algebra.Group.Nat.Defs
import FiveStage.Machine.Basic

/-! # The base integer instruction set

What the forty-nine instructions of RV64I do, by their mnemonics and in terms of integers: which
number is left in the destination register, where execution goes on and which bytes are stored. A
word is read as a signed number by `toInt` and as an unsigned one by `toNat`, a number is brought
back to a word by `BitVec.ofInt 64`, which takes it modulo two to the sixty-fourth, and
`Int.bmod z (2 ^ n)` is the signed number that the low `n` bits of `z` stand for. -/

namespace FiveStage

namespace InstWord

variable (w : InstWord)

/-- The number that `n` bits of a word spell, from bit `low` upwards. -/
def bits (low n : Nat) : Nat := w.toNat / 2 ^ low % 2 ^ n

/-- The immediate of arithmetic, loads and indirect jumps: twelve bits at the top. -/
def signedI : Int := Int.bmod (w.bits 20 12) (2 ^ 12)

/-- The immediate of stores, the lower five bits of which stand in place of a destination. -/
def signedS : Int := Int.bmod (w.bits 25 7 * 2 ^ 5 + w.bits 7 5) (2 ^ 12)

/-- The displacement of branches, an even number of thirteen bits. -/
def signedB : Int :=
  Int.bmod (w.bits 31 1 * 2 ^ 12 + w.bits 7 1 * 2 ^ 11 + w.bits 25 6 * 2 ^ 5 + w.bits 8 4 * 2)
    (2 ^ 13)

/-- The upper immediate: twenty bits with twelve zeros behind them. -/
def signedU : Int := Int.bmod (w.bits 12 20 * 2 ^ 12) (2 ^ 32)

/-- The displacement of jumps, an even number of twenty-one bits. -/
def signedJ : Int :=
  Int.bmod
    (w.bits 31 1 * 2 ^ 20 + w.bits 12 8 * 2 ^ 12 + w.bits 20 1 * 2 ^ 11 + w.bits 21 10 * 2)
    (2 ^ 21)

end InstWord

namespace Word

/-- The number that the lower half of a word stands for without a sign. -/
def unsignedLow (a : Word) : Nat := a.toNat % 2 ^ 32

/-- The number that the lower half of a word stands for with its sign. -/
def signedLow (a : Word) : Int := Int.bmod a.unsignedLow (2 ^ 32)

/-- The low thirty-two bits of a number, widened by their sign. -/
def ofLow (z : Int) : Word := .ofInt 64 (Int.bmod z (2 ^ 32))

end Word

namespace Memory

/-- The byte mapped at an address; zero where nothing is mapped. -/
def cell (m : Memory) (a : Nat) : UInt8 :=
  if m.base.toNat ≤ a then m.byteAt (a - m.base.toNat) else 0

/-- The number that `n` bytes spell from an address on, the lowest byte first. -/
def number (m : Memory) (a : Nat) : Nat → Nat
  | 0 => 0
  | n + 1 => number m a n + (m.cell (a + n)).toNat * 256 ^ n

end Memory

/-- The instructions. -/
inductive Mnemonic
  | add | sub | sll | slt | sltu | xor | srl | sra | or | and
  | addw | subw | sllw | srlw | sraw
  | addi | slli | slti | sltiu | xori | srli | srai | ori | andi
  | addiw | slliw | srliw | sraiw
  | lb | lh | lw | ld | lbu | lhu | lwu
  | sb | sh | sw | sd
  | beq | bne | blt | bge | bltu | bgeu
  | jal | jalr
  | lui | auipc
  deriving DecidableEq, Repr

namespace Mnemonic

/-- The name of an instruction in assembly text. -/
def name : Mnemonic → String
  | add => "add" | sub => "sub" | sll => "sll" | slt => "slt" | sltu => "sltu" | xor => "xor"
  | srl => "srl" | sra => "sra" | or => "or" | and => "and"
  | addw => "addw" | subw => "subw" | sllw => "sllw" | srlw => "srlw" | sraw => "sraw"
  | addi => "addi" | slli => "slli" | slti => "slti" | sltiu => "sltiu" | xori => "xori"
  | srli => "srli" | srai => "srai" | ori => "ori" | andi => "andi"
  | addiw => "addiw" | slliw => "slliw" | srliw => "srliw" | sraiw => "sraiw"
  | lb => "lb" | lh => "lh" | lw => "lw" | ld => "ld" | lbu => "lbu" | lhu => "lhu" | lwu => "lwu"
  | sb => "sb" | sh => "sh" | sw => "sw" | sd => "sd"
  | beq => "beq" | bne => "bne" | blt => "blt" | bge => "bge" | bltu => "bltu" | bgeu => "bgeu"
  | jal => "jal" | jalr => "jalr"
  | lui => "lui" | auipc => "auipc"

/-- The instructions in the order above. -/
def all : List Mnemonic :=
  [add, sub, sll, slt, sltu, xor, srl, sra, or, and,
    addw, subw, sllw, srlw, sraw,
    addi, slli, slti, sltiu, xori, srli, srai, ori, andi,
    addiw, slliw, srliw, sraiw,
    lb, lh, lw, ld, lbu, lhu, lwu,
    sb, sh, sw, sd,
    beq, bne, blt, bge, bltu, bgeu,
    jal, jalr,
    lui, auipc]

theorem find?_name (k : Mnemonic) : all.find? (fun k' => k'.name = k.name) = some k := by
  cases k <;> decide

/-- No two instructions have the same name. -/
theorem name_injective {k k' : Mnemonic} (h : k.name = k'.name) : k = k' := by
  have hk := find?_name k
  rw [h, find?_name k'] at hk
  exact (Option.some.inj hk).symm

/-- How many bytes an instruction loads. -/
def loadBytes? : Mnemonic → Option Nat
  | lb | lbu => some 1
  | lh | lhu => some 2
  | lw | lwu => some 4
  | ld => some 8
  | _ => none

/-- How many bytes an instruction stores. -/
def storeBytes? : Mnemonic → Option Nat
  | sb => some 1
  | sh => some 2
  | sw => some 4
  | sd => some 8
  | _ => none

variable (k : Mnemonic) (w : InstWord) (m : Machine)

/-- Where a load with a given word reads. -/
def loadAddress : Word := .ofInt 64 ((m.regs.read w.rs1).toInt + w.signedI)

/-- Where a store with a given word writes. -/
def storeAddress : Word := .ofInt 64 ((m.regs.read w.rs1).toInt + w.signedS)

/-- The number that a load of `n` bytes reads. -/
def loaded (n : Nat) : Nat := m.memory.number (loadAddress w m).toNat n

/-- What an instruction puts into its destination register, if it has one. -/
def result? : Option Word :=
  let a := m.regs.read w.rs1
  let b := m.regs.read w.rs2
  match k with
  | add => some (.ofInt 64 (a.toInt + b.toInt))
  | sub => some (.ofInt 64 (a.toInt - b.toInt))
  | sll => some (.ofNat 64 (a.toNat * 2 ^ (b.toNat % 64)))
  | slt => some (if a.toInt < b.toInt then 1 else 0)
  | sltu => some (if a.toNat < b.toNat then 1 else 0)
  | xor => some (a ^^^ b)
  | srl => some (.ofNat 64 (a.toNat / 2 ^ (b.toNat % 64)))
  | sra => some (.ofInt 64 (a.toInt / 2 ^ (b.toNat % 64)))
  | or => some (a ||| b)
  | and => some (a &&& b)
  | addw => some (.ofLow (a.signedLow + b.signedLow))
  | subw => some (.ofLow (a.signedLow - b.signedLow))
  | sllw => some (.ofLow (a.unsignedLow * 2 ^ (b.toNat % 32)))
  | srlw => some (.ofLow (a.unsignedLow / 2 ^ (b.toNat % 32)))
  | sraw => some (.ofLow (a.signedLow / 2 ^ (b.toNat % 32)))
  | addi => some (.ofInt 64 (a.toInt + w.signedI))
  | slli => some (.ofNat 64 (a.toNat * 2 ^ w.bits 20 6))
  | slti => some (if a.toInt < w.signedI then 1 else 0)
  | sltiu => some (if a.toNat < w.signedI % 2 ^ 64 then 1 else 0)
  | xori => some (a ^^^ .ofInt 64 w.signedI)
  | srli => some (.ofNat 64 (a.toNat / 2 ^ w.bits 20 6))
  | srai => some (.ofInt 64 (a.toInt / 2 ^ w.bits 20 6))
  | ori => some (a ||| .ofInt 64 w.signedI)
  | andi => some (a &&& .ofInt 64 w.signedI)
  | addiw => some (.ofLow (a.signedLow + w.signedI))
  | slliw => some (.ofLow (a.unsignedLow * 2 ^ w.bits 20 5))
  | srliw => some (.ofLow (a.unsignedLow / 2 ^ w.bits 20 5))
  | sraiw => some (.ofLow (a.signedLow / 2 ^ w.bits 20 5))
  | lb => some (.ofInt 64 (Int.bmod (loaded w m 1) (2 ^ 8)))
  | lh => some (.ofInt 64 (Int.bmod (loaded w m 2) (2 ^ 16)))
  | lw => some (.ofInt 64 (Int.bmod (loaded w m 4) (2 ^ 32)))
  | ld => some (.ofNat 64 (loaded w m 8))
  | lbu => some (.ofNat 64 (loaded w m 1))
  | lhu => some (.ofNat 64 (loaded w m 2))
  | lwu => some (.ofNat 64 (loaded w m 4))
  | jal | jalr => some (.ofNat 64 (m.pc.toNat + 4))
  | lui => some (.ofInt 64 w.signedU)
  | auipc => some (.ofInt 64 (m.pc.toNat + w.signedU))
  | sb | sh | sw | sd | beq | bne | blt | bge | bltu | bgeu => none

/-- Whether an instruction is a branch that is taken. -/
def taken : Bool :=
  let a := m.regs.read w.rs1
  let b := m.regs.read w.rs2
  match k with
  | beq => a = b
  | bne => a ≠ b
  | blt => a.toInt < b.toInt
  | bge => b.toInt ≤ a.toInt
  | bltu => a.toNat < b.toNat
  | bgeu => b.toNat ≤ a.toNat
  | _ => false

/-- The address at which execution goes on. An indirect jump clears the lowest bit of its target. -/
def nextPc : Word :=
  let target := (m.regs.read w.rs1).toInt + w.signedI
  match k with
  | jal => .ofInt 64 (m.pc.toNat + w.signedJ)
  | jalr => .ofInt 64 (target - target % 2)
  | _ => if k.taken w m then .ofInt 64 (m.pc.toNat + w.signedB) else .ofNat 64 (m.pc.toNat + 4)

/-- The access of an instruction, if it makes one, is in range. -/
structure InRange : Prop where
  load : ∀ n, k.loadBytes? = some n → m.memory.Contains (loadAddress w m) n
  store : ∀ n, k.storeBytes? = some n → m.memory.Contains (storeAddress w m) n

/-- The value of a register behind an instruction. -/
def register (r : Nat) : Word :=
  match k.result? w m with
  | some v => if r = w.rd ∧ r ≠ 0 then v else m.regs.read r
  | none => m.regs.read r

/-- The byte at an address behind an instruction. A store leaves the low bytes of its second operand
from its address on. -/
def cell (a : Nat) : UInt8 :=
  let s := (storeAddress w m).toNat
  match k.storeBytes? with
  | some n =>
    if s ≤ a ∧ a < s + n then UInt8.ofNat ((m.regs.read w.rs2).toNat / 256 ^ (a - s))
    else m.memory.cell a
  | none => m.memory.cell a

/-- A machine is what another becomes by the instruction with a given word. -/
structure Executes (m' : Machine) : Prop where
  pc : m'.pc = k.nextPc w m
  register : ∀ r, m'.regs.read r = k.register w m r
  zero : m'.regs.read 0 = 0
  base : m'.memory.base = m.memory.base
  size : m'.memory.size = m.memory.size
  cell : ∀ a, m'.memory.cell a = k.cell w m a

end Mnemonic

end FiveStage
