import FiveStage.Word
import FiveStage.Memory.Width

/-!
# The memory

A flat array of bytes mapped at a base address. Values of more than one byte are little-endian. An
access that is not wholly inside the array fails and changes nothing.
-/

namespace FiveStage

/-- Why a memory access fails. -/
inductive MemoryError
  /-- a byte of the access lies outside the memory -/
  | outOfBounds (addr : Word) (size : Nat)
  /-- no access moves this many bytes -/
  | unsupportedWidth (bytes : Nat)
  deriving DecidableEq, Repr

/-- The message for a failed access. -/
def MemoryError.message : MemoryError → String
  | .outOfBounds addr size =>
    "memory access out of bounds: " ++ Text.decimal size ++ " bytes at " ++ Text.hex addr.toNat
  | .unsupportedWidth n => "unsupported access width of " ++ Text.decimal n ++ " bytes"

/-- The number whose little-endian bytes are given. -/
def ofLittleEndian : List UInt8 → Nat
  | [] => 0
  | b :: rest => b.toNat + 256 * ofLittleEndian rest

/-- The low bytes of a number, lowest first. -/
def toLittleEndian : Nat → Nat → List UInt8
  | 0, _ => []
  | n + 1, v => UInt8.ofNat v :: toLittleEndian n (v / 256)

/-- A byte-addressable memory. -/
structure Memory where
  /-- the lowest address -/
  base : Word
  bytes : ByteArray

namespace Memory

/-- An array of bytes with `n` zeros behind it. -/
def addZeros : Nat → ByteArray → ByteArray
  | 0, bytes => bytes
  | n + 1, bytes => addZeros n (bytes.push 0)

/-- A memory of zeros. -/
def zeros (base : Word) (size : Nat) : Memory := ⟨base, addZeros size (.emptyWithCapacity size)⟩

/-- The number of bytes. -/
def size (m : Memory) : Nat := m.bytes.size

/-- The access of `n` bytes at an address is wholly inside the memory. -/
def Contains (m : Memory) (addr : Word) (n : Nat) : Prop :=
  m.base.toNat ≤ addr.toNat ∧ addr.toNat + n ≤ m.base.toNat + m.size

instance (m : Memory) (addr : Word) (n : Nat) : Decidable (m.Contains addr n) :=
  inferInstanceAs (Decidable (_ ∧ _))

/-- The place of an address in the array. -/
def offset (m : Memory) (addr : Word) : Nat := addr.toNat - m.base.toNat

/-- The byte at a place of the array; zero past its end. -/
def byteAt (m : Memory) (i : Nat) : UInt8 :=
  if h : i < m.bytes.size then m.bytes[i] else 0

/-- The `n` bytes from a place of the array on. -/
def slice (m : Memory) (i : Nat) : Nat → List UInt8
  | 0 => []
  | n + 1 => m.byteAt i :: slice m (i + 1) n

/-- An array of bytes with one of them replaced. -/
def setByte (bytes : ByteArray) (i : Nat) (b : UInt8) : ByteArray :=
  if h : i < bytes.size then bytes.set i b h else bytes

/-- An array of bytes with consecutive ones replaced from a place on. -/
def setBytes (bytes : ByteArray) (i : Nat) : List UInt8 → ByteArray
  | [] => bytes
  | b :: rest => setBytes (setByte bytes i b) (i + 1) rest

/-- Replaces the bytes from an address on. -/
def write (m : Memory) (addr : Word) (data : List UInt8) : Memory :=
  { m with bytes := setBytes m.bytes (addr.toNat - m.base.toNat) data }

/-- The little-endian value of the bytes at an address. -/
def value (m : Memory) (addr : Word) (n : Nat) : Word :=
  BitVec.ofNat 64 (ofLittleEndian (m.slice (m.offset addr) n))

/-- Reads the value at an address. -/
def load (m : Memory) (addr : Word) (w : Width) : Except MemoryError Word :=
  if m.Contains addr w.bytes then .ok (m.value addr w.bytes)
  else .error (.outOfBounds addr w.bytes)

/-- Copies bytes into the memory: all of them or none. -/
def place (m : Memory) (addr : Word) (data : List UInt8) : Except MemoryError Memory :=
  if m.Contains addr data.length then .ok (m.write addr data)
  else .error (.outOfBounds addr data.length)

/-- Writes the low bytes of a value at an address. -/
def store (m : Memory) (addr : Word) (w : Width) (v : Word) : Except MemoryError Memory :=
  m.place addr (toLittleEndian w.bytes v.toNat)

/-- Reads a value whose width is given as a count of bytes. -/
def loadBytes (m : Memory) (addr : Word) (n : Nat) : Except MemoryError Word :=
  match Width.ofBytes? n with
  | some w => m.load addr w
  | none => .error (.unsupportedWidth n)

/-- Writes a value whose width is given as a count of bytes. -/
def storeBytes (m : Memory) (addr : Word) (n : Nat) (v : Word) : Except MemoryError Memory :=
  match Width.ofBytes? n with
  | some w => m.store addr w v
  | none => .error (.unsupportedWidth n)

/-- Copies instruction words into consecutive places. -/
def placeWords (m : Memory) (addr : Word) (words : List InstWord) : Except MemoryError Memory :=
  m.place addr (words.flatMap fun w => toLittleEndian 4 w.toNat)

/-- A summary of the memory: where it starts and how long it is. -/
def summary (m : Memory) : String :=
  "MemoryStore \x7b base: " ++ Text.hex m.base.toNat ++ ", size: " ++ Text.decimal m.size ++ " \x7d"

end Memory

end FiveStage
