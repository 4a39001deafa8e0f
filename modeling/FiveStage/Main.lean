import FiveStage.CommandLine.Session

/-!
# The program

Brings in the files a command line may read, runs it, writes back the files it has changed, and
prints what it has to say.
-/

namespace FiveStage

/-- The paths a session may read, so far as its arguments tell. -/
def Arguments.inputPaths (a : Arguments) : List String :=
  [some a.image, a.config, a.memRange, a.initMem].filterMap id

/-- The paths a session may write. -/
def Arguments.outputPaths (a : Arguments) : List String :=
  Simulator.reportSuffixes.map (Simulator.reportPath a.outputBase)

/-- Adds the directories on the way to a place that the system has, and the place itself if it is a
directory. -/
def observeDirectories (f : Files) (l : Location) : IO Files := do
  let mut f := f
  for place in Files.above l ++ [l] do
    if !place.isEmpty then
      try
        let path ← IO.FS.realPath (Files.pathOf place)
        if ← path.isDir then f := f.addDirectory place
      catch _ => pure ()
  return f

/-- The place a path leads to when all of its names exist. -/
def placeOf (path : String) : Location :=
  let start : Location := if path.startsWith "/" then ["/"] else []
  (Files.names path).foldl
    (fun l name =>
      if name = "." then l else if name = ".." then Files.parent l else l ++ [name]) start

/-- Why the system does not let a file be read, if there is one. -/
def readRefusal? : IO.Error → Option String
  | .noFileOrDirectory .. => none
  | .inappropriateType .. => some OsError.notDirectory.message
  | .permissionDenied .. => some "Permission denied (os error 13)"
  | e => some (toString e)

/-- Adds what the system has at a path: a file with its contents, or one that it refuses to open. -/
def observe (f : Files) (path : String) : IO Files := do
  let l := placeOf path
  let f ← observeDirectories f l
  if f.isDirectory l || (f.lookup l).isSome then return f
  try
    return f.addFile l (← IO.FS.readBinFile path)
  catch e =>
    match readRefusal? e with
    | some text => return f.addRefused l text
    | none => return f

/-- The files a session may read, and the directories it may write to. -/
def observeAll (a : Arguments) : IO Files := do
  let mut f := Files.empty
  for path in a.inputPaths do
    f ← observe f path
  match a.settings f with
  | .ok c =>
    match c.initImage with
    | some path => f ← observe f path
    | none => pure ()
  | .error _ => pure ()
  for path in a.outputPaths do
    f ← observeDirectories f (placeOf path)
  return f

/-- Writes the files that have changed. -/
def writeBack (before after : Files) : IO Unit := do
  let old := before.list
  for (path, content) in after.list do
    let kept :=
      match old.lookup path with
      | some earlier => earlier.data == content.data
      | none => false
    if !kept then IO.FS.writeBinFile path content

end FiveStage

open FiveStage in
/-- Runs the command line the program was called with. -/
def main (args : List String) : IO UInt32 := do
  let f ←
    match Request.ofArguments args with
    | .run a => observeAll a
    | _ => pure Files.empty
  let o := runCommandLine args f
  try
    writeBack f o.files
  catch e =>
    IO.eprintln ("[!] " ++ toString e)
    return rejectedExitCode.toUInt32
  IO.print o.console
  match o.failure, o.refusal with
  | some text, _ => IO.eprintln ("[!] " ++ text)
  | none, some e => IO.eprintln ("error: " ++ e.message)
  | none, none => pure ()
  return o.exitCode.toUInt32
