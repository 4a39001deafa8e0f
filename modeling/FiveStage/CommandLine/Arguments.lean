import FiveStage.Config.Basic
import FiveStage.Text.Unsigned

/-!
# Command-line arguments

The grammar of the command line: the image, options with a value, and switches. An option takes its
value from the rest of its own argument or from the next one, which may not look like an option. No
option may be given twice, and everything behind `--` is a name.
-/

namespace FiveStage

/-- The options with a value. -/
inductive OptionName
  | config | mode | cycles | instructions | icache | dcache | initMem | memRange | output
  deriving DecidableEq, Repr

/-- The options without a value. -/
inductive Switch
  | trace | quiet | version | help
  deriving DecidableEq, Repr

/-- What a command line asks for. -/
structure Arguments where
  image : String
  config : Option String := none
  mode : Option RunMode := none
  cycles : Option Nat := none
  instructions : Option Nat := none
  icache : Option String := none
  dcache : Option String := none
  initMem : Option String := none
  memRange : Option String := none
  output : Option String := none
  trace : Bool := false
  quiet : Bool := false
  deriving DecidableEq, Repr

/-- Why a command line is refused. -/
inductive UsageError
  | missingImage
  | missingValue
  | unknownOption (text : String)
  | unexpectedArgument (text : String)
  | repeated
  | invalidValue (text : String)
  /-- two options that exclude each other -/
  | conflict
  deriving DecidableEq, Repr

/-- A refusal in words. -/
def UsageError.message : UsageError → String
  | missingImage => "no image is given"
  | missingValue => "an option lacks its value"
  | unknownOption text => "unknown option " ++ text
  | unexpectedArgument text => "unexpected argument " ++ text
  | repeated => "an option is given twice"
  | invalidValue text => "invalid value " ++ text
  | conflict => "a budget of cycles excludes one of instructions"

/-- What a command line comes to. -/
inductive Request
  | run (a : Arguments)
  | version
  | help
  | refused (e : UsageError)
  deriving DecidableEq, Repr

namespace Arguments

/-- What has been read of a command line. -/
structure Partial where
  image : Option String := none
  config : Option String := none
  mode : Option RunMode := none
  cycles : Option Nat := none
  instructions : Option Nat := none
  icache : Option String := none
  dcache : Option String := none
  initMem : Option String := none
  memRange : Option String := none
  output : Option String := none
  trace : Bool := false
  quiet : Bool := false
  deriving DecidableEq, Repr

/-- The option a long name stands for. -/
def longOption? (name : String) : Option OptionName :=
  [("config", .config), ("mode", .mode), ("cycles", .cycles), ("instructions", .instructions),
    ("icache", .icache), ("dcache", .dcache), ("init-mem", .initMem), ("mem-range", .memRange),
    ("output", .output)].lookup name

/-- The switch a long name stands for. -/
def longSwitch? (name : String) : Option Switch :=
  [("trace", .trace), ("quiet", .quiet), ("version", .version), ("help", .help)].lookup name

/-- The option a letter stands for. -/
def shortOption? (c : Char) : Option OptionName :=
  [('c', .config), ('m', .mode), ('o', .output)].lookup c

/-- The switch a letter stands for. -/
def shortSwitch? (c : Char) : Option Switch :=
  [('q', .quiet), ('V', .version), ('h', .help)].lookup c

/-- A name of an execution model. -/
def modeOf? (value : String) : Option RunMode :=
  if value = "functional" then some .functional
  else if value = "pipelined" then some .pipelined
  else none

/-- Fills a place that has to be empty. -/
def fill {α : Type} (old : Option α) (value : Except UsageError α) :
    Except UsageError (Option α) :=
  match old, value with
  | some _, _ => .error .repeated
  | none, .ok v => .ok (some v)
  | none, .error e => .error e

/-- A value that is a path, which is never empty. -/
def pathValue (value : String) : Except UsageError String :=
  if value.isEmpty then .error (.invalidValue value) else .ok value

/-- A value that is a number. -/
def numberValue (value : String) : Except UsageError Nat :=
  match Text.readUnsigned 10 value.toList with
  | .ok n => .ok n
  | .error _ => .error (.invalidValue value)

/-- A value that is an execution model. -/
def modeValue (value : String) : Except UsageError RunMode :=
  match modeOf? value with
  | some m => .ok m
  | none => .error (.invalidValue value)

/-- Takes in an option with its value. -/
def setOption (p : Partial) (o : OptionName) (value : String) : Except UsageError Partial :=
  match o with
  | .config => (fill p.config (pathValue value)).map fun v => { p with config := v }
  | .mode => (fill p.mode (modeValue value)).map fun v => { p with mode := v }
  | .cycles => (fill p.cycles (numberValue value)).map fun v => { p with cycles := v }
  | .instructions =>
    (fill p.instructions (numberValue value)).map fun v => { p with instructions := v }
  | .icache => (fill p.icache (.ok value)).map fun v => { p with icache := v }
  | .dcache => (fill p.dcache (.ok value)).map fun v => { p with dcache := v }
  | .initMem => (fill p.initMem (pathValue value)).map fun v => { p with initMem := v }
  | .memRange => (fill p.memRange (pathValue value)).map fun v => { p with memRange := v }
  | .output => (fill p.output (pathValue value)).map fun v => { p with output := v }

/-- Takes in a name. There is one, the image. -/
def setName (p : Partial) (name : String) : Except UsageError Partial :=
  match p.image with
  | some _ => .error (.unexpectedArgument name)
  | none => (pathValue name).map fun v => { p with image := some v }

/-- The arguments that have been read, if they are complete and do not exclude each other. -/
def finish (p : Partial) : Request :=
  match p.image with
  | none => .refused .missingImage
  | some image =>
    if p.cycles.isSome && p.instructions.isSome then .refused .conflict
    else
      .run
        { image
          config := p.config
          mode := p.mode
          cycles := p.cycles
          instructions := p.instructions
          icache := p.icache
          dcache := p.dcache
          initMem := p.initMem
          memRange := p.memRange
          output := p.output
          trace := p.trace
          quiet := p.quiet }

/-- What reading one argument leads to: more to read, an option that waits for its value, or an
early end. -/
inductive Progress
  | ready (p : Partial)
  | awaiting (p : Partial) (o : OptionName)
  | done (r : Request)

/-- Takes in a switch. -/
def setSwitch (p : Partial) : Switch → Progress
  | .version => .done .version
  | .help => .done .help
  | .trace => if p.trace then .done (.refused .repeated) else .ready { p with trace := true }
  | .quiet => if p.quiet then .done (.refused .repeated) else .ready { p with quiet := true }

/-- The progress that taking in a value makes. -/
def progress : Except UsageError Partial → Progress
  | .ok p => .ready p
  | .error e => .done (.refused e)

/-- Reads an argument with a long name. -/
def readLong (p : Partial) (text : List Char) : Progress :=
  let name := String.ofList (text.takeWhile (· ≠ '='))
  match text.dropWhile (· ≠ '='), longOption? name, longSwitch? name with
  | _ :: value, some o, _ => progress (setOption p o (String.ofList value))
  | [], some o, _ => .awaiting p o
  | [], none, some s => setSwitch p s
  | _, _, _ => .done (.refused (.unknownOption name))

/-- Reads the letters of an argument. The letter of an option takes the letters behind it as its
value, less an equals sign in front. -/
def readShort (p : Partial) : List Char → Progress
  | [] => .ready p
  | c :: rest =>
    match shortSwitch? c, shortOption? c with
    | some s, _ =>
      match setSwitch p s with
      | .ready p => readShort p rest
      | other => other
    | none, some o =>
      match rest with
      | [] => .awaiting p o
      | '=' :: value => progress (setOption p o (String.ofList value))
      | value => progress (setOption p o (String.ofList value))
    | none, none => .done (.refused (.unknownOption (String.singleton c)))

/-- Reads names alone. -/
def readNames (p : Partial) : List String → Request
  | [] => finish p
  | name :: rest =>
    match setName p name with
    | .ok p => readNames p rest
    | .error e => .refused e

/-- Reads arguments, with the option that waits for its value, if there is one. -/
def readAll (p : Partial) (waiting : Option OptionName) : List String → Request
  | [] => if waiting.isSome then .refused .missingValue else finish p
  | arg :: rest =>
    let go : Progress → Request
      | .ready p => readAll p none rest
      | .awaiting p o => readAll p (some o) rest
      | .done r => r
    match waiting, arg.toList with
    | some _, '-' :: _ :: _ => .refused .missingValue
    | some o, _ => go (progress (setOption p o arg))
    | none, ['-', '-'] => readNames p rest
    | none, '-' :: '-' :: name => go (readLong p name)
    | none, '-' :: c :: letters => go (readShort p (c :: letters))
    | none, _ => go (progress (setName p arg))

end Arguments

/-- Reads the arguments of a command line. -/
def Request.ofArguments (args : List String) : Request := Arguments.readAll {} none args

end FiveStage
