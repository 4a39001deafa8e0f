import FiveStage.Config.Basic
import FiveStage.Json.Reader

/-!
# Settings as a JSON document

A document has the sections `general`, `memory` and `cache`. Every section and every field may be
left out and then keeps its default; unknown fields are ignored. A section is an object, or an array
of its fields in order, of which the last ones may be missing.
-/

namespace FiveStage

/-- Why a document gives no settings. -/
inductive DocumentError
  /-- the text is no JSON document -/
  | malformed
  /-- a value is not of the kind its place asks for -/
  | mismatch (expected : String)
  /-- a name is no text -/
  | brokenName
  /-- a field is given twice -/
  | repeated (field : String)
  /-- an array has more items than the section has fields -/
  | surplus (sectionName : String)
  deriving DecidableEq, Repr

/-- What is wrong with a document, in words. -/
def DocumentError.message : DocumentError → String
  | malformed => "the text is not a JSON document"
  | mismatch expected => "expected " ++ expected
  | brokenName => "a name holds half of a surrogate pair"
  | repeated field => "field " ++ field ++ " is given twice"
  | surplus name => "section " ++ name ++ " has too many items"

namespace Config

/-- A field of a section: its name, and what its value changes in the settings. -/
structure Field where
  name : String
  apply : Config → Json → Except DocumentError Config

/-- Applies the items of an array to the fields of a section in order. -/
def applyItems (sectionName : String) :
    List Field → Config → List Json → Except DocumentError Config
  | _, c, [] => .ok c
  | [], _, _ :: _ => .error (.surplus sectionName)
  | f :: fs, c, v :: vs =>
    match f.apply c v with
    | .error e => .error e
    | .ok c => applyItems sectionName fs c vs

/-- Applies the members of an object. The names of the fields already given are remembered. -/
def applyMembers (fields : List Field) :
    List String → Config → List (List Nat × Json) → Except DocumentError Config
  | _, c, [] => .ok c
  | seen, c, (units, v) :: rest =>
    match Json.text? units with
    | none => .error .brokenName
    | some name =>
      match fields.find? fun f => f.name.toList = name with
      | none => applyMembers fields seen c rest
      | some f =>
        if seen.contains f.name then .error (.repeated f.name)
        else
          match f.apply c v with
          | .error e => .error e
          | .ok c => applyMembers fields (f.name :: seen) c rest

/-- Applies the value of a section. -/
def applySection (sectionName : String) (fields : List Field) (c : Config) :
    Json → Except DocumentError Config
  | .array items => applyItems sectionName fields c items
  | .object members => applyMembers fields [] c members
  | _ => .error (.mismatch sectionName)

/-- An unsigned number of 64 bits. -/
def readNatural : Json → Except DocumentError Nat
  | .natural n =>
    if n < Text.numeralLimit then .ok n else .error (.mismatch "an unsigned 64-bit number")
  | _ => .error (.mismatch "an unsigned 64-bit number")

/-- A field that holds a number. -/
def numberField (name : String) (set : Config → Nat → Config) : Field :=
  { name, apply := fun c v => (readNatural v).map (set c) }

/-- The execution model with a given name. -/
def readModeName (units : List Nat) : Except DocumentError RunMode :=
  if Json.text? units = some "functional".toList then .ok .functional
  else if Json.text? units = some "pipelined".toList then .ok .pipelined
  else .error (.mismatch "functional or pipelined")

/-- An execution model: its name, or an object whose only member has that name and no value. -/
def readMode : Json → Except DocumentError RunMode
  | .string units => readModeName units
  | .object [(units, .null)] => readModeName units
  | _ => .error (.mismatch "functional or pipelined")

/-- A path, or nothing. -/
def readPath : Json → Except DocumentError (Option String)
  | .null => .ok none
  | .string units =>
    match Json.text? units with
    | some cs => .ok (some (String.ofList cs))
    | none => .error (.mismatch "a path")
  | _ => .error (.mismatch "a path")

/-- The fields of the section `general`. -/
def generalFields : List Field :=
  [{ name := "mode", apply := fun c v => (readMode v).map fun m => { c with mode := m } },
    numberField "start_pc" fun c n => { c with startPc := BitVec.ofNat 64 n }]

/-- The fields of the section `memory`. -/
def memoryFields : List Field :=
  [numberField "base" fun c n => { c with memoryBase := BitVec.ofNat 64 n },
    numberField "size" fun c n => { c with memorySize := n },
    numberField "dump_start" fun c n => { c with dumpStart := BitVec.ofNat 64 n },
    numberField "dump_end" fun c n => { c with dumpEnd := BitVec.ofNat 64 n },
    { name := "init_image"
      apply := fun c v => (readPath v).map fun p => { c with initImage := p } }]

/-- The fields of a cache, each with what it changes in the geometry. -/
def geometryFields (edit : Config → (Geometry → Geometry) → Config) : List Field :=
  [numberField "size_bytes" fun c n => edit c fun g => { g with sizeBytes := n },
    numberField "block_bytes" fun c n => edit c fun g => { g with blockBytes := n },
    numberField "ways" fun c n => edit c fun g => { g with ways := n },
    numberField "miss_latency" fun c n => edit c fun g => { g with missLatency := n }]

/-- The settings with the geometry of the instruction cache changed. -/
def editInstructionCache (c : Config) (f : Geometry → Geometry) : Config :=
  { c with instructionCache := f c.instructionCache }

/-- The settings with the geometry of the data cache changed. -/
def editDataCache (c : Config) (f : Geometry → Geometry) : Config :=
  { c with dataCache := f c.dataCache }

/-- The fields of the section `cache`. -/
def cacheFields : List Field :=
  [{ name := "l1_i", apply := applySection "l1_i" (geometryFields editInstructionCache) },
    { name := "l1_d", apply := applySection "l1_d" (geometryFields editDataCache) }]

/-- The sections of a document. -/
def sections : List Field :=
  [{ name := "general", apply := applySection "general" generalFields },
    { name := "memory", apply := applySection "memory" memoryFields },
    { name := "cache", apply := applySection "cache" cacheFields }]

/-- Reads settings from the text of a document. They are not validated. -/
def ofDocument (text : List Char) : Except DocumentError Config :=
  match Json.read? text with
  | none => .error .malformed
  | some v => applySection "settings" sections {} v

end Config

end FiveStage
