import FiveStage.Failure
import FiveStage.Memory.ImageText

/-!
# Loading

The initial memory of a run: a flat binary at the base address, and on top of it the words of an
initial image, if the settings name one.
-/

namespace FiveStage

/-- Reads settings from a file. -/
def Files.readConfig (f : Files) (path : String) : Except Failure Config :=
  match f.readText path with
  | .error e => .error (.io path e)
  | .ok text => (Config.ofDocument text.toList).mapError .document

/-- Reads a range of addresses from a file. -/
def Files.readRange (f : Files) (path : String) : Except Failure (Word × Word) :=
  match f.readText path with
  | .error e => .error (.io path e)
  | .ok text => (ImageText.readRange text.toList).mapError .config

namespace Memory

/-- The memory with the words of an initial image stored in it, and what stopped them, if anything.
A text that cannot be read stores nothing. -/
def applyImage (m : Memory) (text : List Char) : Except Failure Nat × Memory :=
  match ImageText.readImage text with
  | .error e => (.error (.config e), m)
  | .ok ps =>
    match m.storeWords ps with
    | (none, m) => (.ok ps.length, m)
    | (some e, m) => (.error (.memory e), m)

/-- The initial memory for a program, from settings that are accepted. -/
def initial (c : Config) (program : ByteArray) (f : Files) : Except Failure Memory :=
  match c.validate with
  | .error e => .error (.config e)
  | .ok () =>
    match (zeros c.memoryBase c.memorySize).place c.memoryBase program.toList with
    | .error e => .error (.memory e)
    | .ok m =>
      match c.initImage with
      | none => .ok m
      | some path =>
        match f.readText path with
        | .error e => .error (.io path e)
        | .ok text =>
          match m.applyImage text.toList with
          | (.ok _, m) => .ok m
          | (.error e, _) => .error e

/-- The initial memory for the program in a file. -/
def ofProgram (c : Config) (path : String) (f : Files) : Except Failure Memory :=
  match f.read path with
  | .error e => .error (.io path e)
  | .ok program => initial c program f

end Memory

end FiveStage
