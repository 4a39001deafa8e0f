import FiveStage.Text.Blank
import FiveStage.Text.Numeral

/-!
# Files

The files a program can reach, as a value: names with their contents, directories, a device on which
every write fails for lack of space, and files the system refuses to open. Space can be scarce: a
place may have a limit, and a write that goes beyond it is cut off there and fails. Reading and
writing change nothing else. A file that is open for writing is a handle, which keeps its own place
in the file.
-/

namespace FiveStage

/-- Why a file operation fails. -/
inductive OsError
  | notFound
  | notDirectory
  | isDirectory
  | noSpace
  | outOfMemory
  /-- the contents are not text -/
  | invalidText
  /-- any other reason, in the words of the system -/
  | other (text : String)
  deriving DecidableEq, Repr

/-- A failure in the words of the system. -/
def OsError.message : OsError → String
  | notFound => "No such file or directory (os error 2)"
  | notDirectory => "Not a directory (os error 20)"
  | isDirectory => "Is a directory (os error 21)"
  | noSpace => "No space left on device (os error 28)"
  | outOfMemory => "out of memory"
  | invalidText => "stream did not contain valid UTF-8"
  | other text => text

/-- A place in the tree of files: the names on the way to it from the working directory, or from the
root if the first is a slash. -/
abbrev Location := List String

/-- What is found at a place. -/
inductive Node
  | file (content : ByteArray)
  | directory
  /-- a device that takes no data, and from which zeros are read without end -/
  | full
  /-- a file that cannot be opened, and why, in the words of the system -/
  | refused (text : String)

/-- The files, directories and devices that exist, each at its place. -/
structure Files where
  nodes : List (Location × Node)
  /-- the most bytes there is space for in a file, at the places where space is scarce -/
  limits : List (Location × Nat) := []

/-- A file that is open for writing, and the place of the next byte in it. -/
structure Handle where
  location : Location
  offset : Nat
  deriving DecidableEq, Repr

namespace Files

/-- What is found at a place, if anything. -/
def lookup (f : Files) (l : Location) : Option Node := f.nodes.lookup l

/-- What is found at a place, unless it is a file. Writing leaves it as it is. -/
def fixed? (f : Files) (l : Location) : Option Node :=
  match f.lookup l with
  | some (.file _) => none
  | n => n

/-- Whether a place is a directory. The working directory, the root and the directories above them
always are. -/
def isDirectory (f : Files) (l : Location) : Bool :=
  l = ["/"] || l.all (· = "..") ||
    match f.fixed? l with
    | some .directory => true
    | _ => false

/-- Whether a place is a device that takes no data. -/
def isFull (f : Files) (l : Location) : Bool :=
  match f.fixed? l with
  | some .full => true
  | _ => false

/-- Why nothing can be opened at a place, if nothing can. -/
def refusal? (f : Files) (l : Location) : Option OsError :=
  if f.isDirectory l then some .isDirectory
  else
    match f.fixed? l with
    | some (.refused text) => some (.other text)
    | _ => none

/-- The bytes there is space for at a place, if space is scarce there. -/
def room? (f : Files) (l : Location) : Option Nat :=
  if f.isFull l then some 0 else f.limits.lookup l

/-- The place above another one. -/
def parent (l : Location) : Location :=
  if l = ["/"] then l else if l.all (· = "..") then l ++ [".."] else l.dropLast

/-- Follows the names of a path from a place. Every place left behind has to be a directory. -/
def walk (f : Files) (l : Location) : List String → Except OsError Location
  | [] => .ok l
  | name :: rest =>
    if f.isDirectory l then
      if name = "." then walk f l rest
      else if name = ".." then walk f (parent l) rest
      else walk f (l ++ [name]) rest
    else if (f.lookup l).isSome then .error .notDirectory
    else .error .notFound

/-- The names of a path. A slash at the end asks for a directory, like a name `.` there. -/
def names (path : String) : List String :=
  let pieces := Text.splitOn '/' path.toList
  let named := (pieces.filter fun p => !p.isEmpty).map String.ofList
  if pieces.getLast? = some [] then named ++ ["."] else named

/-- The place a path leads to. -/
def resolve (f : Files) (path : String) : Except OsError Location :=
  if path.isEmpty then .error .notFound
  else f.walk (if path.startsWith "/" then ["/"] else []) (names path)

/-- The place at which a path asks for a file to be created. -/
def resolveNew (f : Files) (path : String) : Except OsError Location :=
  if path.endsWith "/" then
    match f.walk (if path.startsWith "/" then ["/"] else []) (names path).dropLast with
    | .error e => .error e
    | .ok _ => .error .isDirectory
  else f.resolve path

/-- The contents of a file. A device without end does not fit into memory. -/
def read (f : Files) (path : String) : Except OsError ByteArray :=
  match f.resolve path with
  | .error e => .error e
  | .ok l =>
    match f.refusal? l with
    | some e => .error e
    | none =>
      match f.lookup l with
      | some (.file content) => .ok content
      | some _ => .error .outOfMemory
      | none => .error .notFound

/-- The contents of a file as text. -/
def readText (f : Files) (path : String) : Except OsError String :=
  match f.read path with
  | .error e => .error e
  | .ok content =>
    match String.fromUTF8? content with
    | some text => .ok text
    | none => .error .invalidText

/-- The nodes with what is found at a place changed. -/
def update (l : Location) (change : Node → Node) : List (Location × Node) → List (Location × Node)
  | [] => []
  | (l', n) :: rest => if l' = l then (l', change n) :: rest else (l', n) :: update l change rest

/-- The files with a file of given contents at a place. -/
def put (f : Files) (l : Location) (content : ByteArray) : Files :=
  { f with
    nodes :=
      if (f.lookup l).isSome then update l (fun _ => .file content) f.nodes
      else (l, .file content) :: f.nodes }

/-- Opens a file for writing. It is created if need be, and loses what it held. -/
def create (f : Files) (path : String) : Except OsError (Handle × Files) :=
  match f.resolveNew path with
  | .error e => .error e
  | .ok l =>
    match f.refusal? l with
    | some e => .error e
    | none => .ok (⟨l, 0⟩, if f.isFull l then f else f.put l .empty)

/-- Contents with some bytes written from a place on; a gap before that place is filled with
zeros. -/
def overwrite (content : ByteArray) (offset : Nat) (data : ByteArray) : ByteArray :=
  if offset = content.size then content ++ data
  else
    let gap : ByteArray := ⟨Array.replicate (offset - content.size) 0⟩
    content.extract 0 offset ++ gap ++ data ++ content.extract (offset + data.size) content.size

/-- A file with some bytes written from a place on. -/
def overwriteNode (offset : Nat) (data : ByteArray) : Node → Node
  | .file content => .file (overwrite content offset data)
  | n => n

/-- The bytes of some data for which there is space where a handle is. -/
def fitting (f : Files) (h : Handle) (data : ByteArray) : ByteArray :=
  match f.room? h.location with
  | some bound => data.extract 0 (bound - h.offset)
  | none => data

/-- Writes bytes at the place a handle has reached, as many as there is space for. It fails if some
are left. -/
def write (f : Files) (h : Handle) (data : ByteArray) : Option OsError × Handle × Files :=
  let taken := f.fitting h data
  (if taken.size < data.size then some .noSpace else none,
    { h with offset := h.offset + taken.size },
    if taken.isEmpty then f
    else { f with nodes := update h.location (overwriteNode h.offset taken) f.nodes })

/-- Gives a file new contents, creating it if need be. -/
def save (f : Files) (path : String) (data : ByteArray) : Option OsError × Files :=
  match f.create path with
  | .error e => (some e, f)
  | .ok (h, f) =>
    let (e, _, f) := f.write h data
    (e, f)

/-- The directories on the way to a place. -/
def above (l : Location) : List Location :=
  (List.range l.length).map fun n => l.take n

/-- The files with a directory at a place, and those above it. -/
def addDirectory (f : Files) (l : Location) : Files :=
  (above l ++ [l]).foldl
    (fun f l =>
      if f.isDirectory l then f else { f with nodes := (l, .directory) :: f.nodes }) f

/-- The files with one more at a place, and the directories above it. -/
def addFile (f : Files) (l : Location) (content : ByteArray) : Files :=
  (f.addDirectory l.dropLast).put l content

/-- The files with one at a place that cannot be opened, and the directories above it. -/
def addRefused (f : Files) (l : Location) (text : String) : Files :=
  let f := f.addDirectory l.dropLast
  { f with nodes := (l, .refused text) :: f.nodes }

/-- No files but the device that takes no data. -/
def empty : Files :=
  { nodes := [(["/", "dev", "full"], .full), (["/", "dev"], .directory)] }

/-- A place as a path. -/
def pathOf : Location → String
  | "/" :: rest => "/" ++ "/".intercalate rest
  | l => "/".intercalate l

/-- The files below the working directory, with their paths. -/
def list (f : Files) : List (String × ByteArray) :=
  f.nodes.filterMap fun
    | (l, .file content) => some (pathOf l, content)
    | _ => none

end Files

end FiveStage
