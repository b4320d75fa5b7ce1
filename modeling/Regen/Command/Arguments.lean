import Regen.Settings
import Regen.Variables

/-!
# Arguments

The command line names a task and its options. Options are written with two dashes and a name, or some
of them with one dash and a letter, and letters can be put together. The value of an option follows an
equals sign, or follows its letter at once, or is the next argument unless that looks like an option.
Behind two dashes alone there are no more options.

Some options are accepted both in front of the task and behind it. If one of them is given in both
places, the one behind the task counts. In one place an option can be given once only, except for those
that add up.
-/

namespace Regen.Command

/-- The parts of a command line: in front of a task, or behind it. -/
inductive Level where
  /-- In front of the task. -/
  | top
  /-- Behind the task that writes an output. -/
  | render
  /-- Behind the task that compares an output. -/
  | check
  /-- Behind the task that lists edits. -/
  | edits
  deriving DecidableEq

/-- The level that a task opens. -/
def Level.ofTask? : String → Option Level
  | "render" => some .render
  | "check" => some .check
  | "edits" => some .edits
  | _ => none

/-- What can be said with dashes. -/
inductive Flag where
  /-- The root of the project. -/
  | path
  /-- More output. -/
  | verbose
  /-- Output without colours. -/
  | noColor
  /-- A description of the program. -/
  | help
  /-- The name and version of the program. -/
  | version
  /-- The file an output is written to. -/
  | output
  /-- How the template is turned into output. -/
  | mode
  /-- A variable of templates. -/
  | assign
  /-- A file with variables of templates. -/
  | context
  /-- Whether markers are removed. -/
  | removeMarkers
  /-- The difference between the output there is and the output there should be. -/
  | diff
  /-- How a list of edits is written. -/
  | format
  deriving DecidableEq

/-- How a list of edits is written. -/
inductive ListFormat where
  /-- Names with their indented bodies. -/
  | text
  /-- A JSON object. -/
  | json
  deriving DecidableEq

/-- The mode of a name. -/
def modeNamed? : String → Option Mode
  | "directive" => some .directive
  | "document" => some .document
  | _ => none

/-- The truth value of a name. -/
def boolNamed? : String → Option Bool
  | "true" => some true
  | "false" => some false
  | _ => none

/-- The format of a name. -/
def formatNamed? : String → Option ListFormat
  | "text" => some .text
  | "json" => some .json
  | _ => none

namespace Flag

/-- The name behind two dashes. -/
def name : Flag → String
  | .path => "path"
  | .verbose => "verbose"
  | .noColor => "no-color"
  | .help => "help"
  | .version => "version"
  | .output => "output"
  | .mode => "mode"
  | .assign => "var"
  | .context => "context"
  | .removeMarkers => "remove-markers"
  | .diff => "diff"
  | .format => "format"

/-- The letter behind one dash. -/
def letter? : Flag → Option Char
  | .path => some 'p'
  | .verbose => some 'v'
  | .help => some 'h'
  | .version => some 'V'
  | .output => some 'o'
  | _ => none

/-- Whether a value belongs to it. -/
def takesValue : Flag → Bool
  | .verbose | .noColor | .help | .version | .diff => false
  | .path | .output | .mode | .assign | .context | .removeMarkers | .format => true

/-- Whether it can be given more than once. -/
def addsUp : Flag → Bool
  | .assign => true
  | _ => false

/-- Whether a value is one that it can have. -/
def admits : Flag → String → Bool
  | .path, value | .output, value | .context, value => value ≠ ""
  | .mode, value => (modeNamed? value).isSome
  | .assign, value => (Variables.assignment? value).isSome
  | .removeMarkers, value => (boolNamed? value).isSome
  | .format, value => (formatNamed? value).isSome
  | .verbose, _ | .noColor, _ | .help, _ | .version, _ | .diff, _ => true

end Flag

/-- The flags accepted at a level. -/
def Level.flags : Level → List Flag
  | .top => [.path, .verbose, .noColor, .help, .version]
  | .render => [.path, .verbose, .noColor, .help] ++ render
  | .check => [.path, .verbose, .noColor, .help, .diff] ++ render
  | .edits => [.path, .verbose, .noColor, .help, .format]
where
  /-- The flags that say what to render and how. -/
  render : List Flag := [.output, .mode, .assign, .context, .removeMarkers]

/-- Why a command line is refused. -/
inductive Refusal where
  /-- There is an argument that means nothing here. -/
  | unexpected (word : String)
  /-- The value of a flag is missing. -/
  | noValue (flag : Flag)
  /-- A flag has a value and takes none. -/
  | needlessValue (flag : Flag)
  /-- A flag is given twice. -/
  | repeated (flag : Flag)
  /-- A flag cannot have this value. -/
  | invalidValue (flag : Flag) (value : String)
  /-- The file that the task is about is missing. -/
  | noFile
  deriving DecidableEq

/-- The wording of a refusal. -/
def Refusal.message : Refusal → String
  | .unexpected word => s!"unexpected argument '{word}'"
  | .noValue flag => s!"a value is required for '--{flag.name}'"
  | .needlessValue flag => s!"no value is accepted for '--{flag.name}'"
  | .repeated flag => s!"'--{flag.name}' cannot be used multiple times"
  | .invalidValue .assign value =>
    s!"invalid value '{value}' for '--var': {Variables.assignmentMessage value}"
  | .invalidValue flag value => s!"invalid value '{value}' for '--{flag.name}'"
  | .noFile => "the file is missing"

/-- Why a command line names no task to carry out. -/
inductive Stop where
  /-- It asks for a description of the program. -/
  | help
  /-- It asks for the name and version of the program. -/
  | version
  /-- It is refused. -/
  | refused (why : Refusal)
  deriving DecidableEq

/-- What has been read of a command line. -/
structure Reading where
  /-- The level that has been reached. -/
  level : Level := .top
  /-- What was given in front of the task, once that has been named. -/
  inherited : List (Flag × String) := []
  /-- What was given at this level. -/
  given : List (Flag × String) := []
  /-- The file that the task is about. -/
  file? : Option String := none

/-- A reading that goes on, or a reason to stop. -/
abbrev Read := Except Stop

namespace Reading

/-- Refuses the command line. -/
def refuse {α : Type} (why : Refusal) : Read α := .error (.refused why)

/-- Takes a flag with its value. -/
def give (r : Reading) (flag : Flag) (value : String) : Read Reading :=
  if !flag.addsUp && r.given.any (·.1 = flag) then refuse (.repeated flag)
  else if !flag.admits value then refuse (.invalidValue flag value)
  else
    match flag with
    | .help => .error .help
    | .version => .error .version
    | _ => .ok { r with given := r.given ++ [(flag, value)] }

/-- Takes the file that the task is about. -/
def takeFile (r : Reading) (word : String) : Read Reading :=
  if r.level = .top || r.file?.isSome || word.isEmpty then refuse (.unexpected word)
  else .ok { r with file? := some word }

/-- Takes a word that is no option: the task, and then its file. -/
def takeWord (r : Reading) (word : String) : Read Reading :=
  match r.level, Level.ofTask? word with
  | .top, some level => .ok { level, inherited := r.given }
  | _, _ => r.takeFile word

/-- Takes a flag that is given by its name. It may be waiting for its value afterwards. -/
def takeLong (r : Reading) (body : List Char) : Read (Reading × Option Flag) :=
  let name := String.ofList (body.takeWhile (· ≠ '='))
  match r.level.flags.find? (·.name = name), body.dropWhile (· ≠ '=') with
  | none, _ => refuse (.unexpected (String.ofList ('-' :: '-' :: body)))
  | some flag, [] =>
    if flag.takesValue then .ok (r, some flag) else return (← r.give flag "", none)
  | some flag, _ :: value =>
    if flag.takesValue then return (← r.give flag (String.ofList value), none)
    else refuse (.needlessValue flag)

/-- Takes flags that are given by their letters. The last may be waiting for its value afterwards. -/
def takeShort (r : Reading) : List Char → Read (Reading × Option Flag)
  | [] => .ok (r, none)
  | letter :: rest =>
    match r.level.flags.find? (·.letter? = some letter) with
    | none => refuse (.unexpected (String.ofList ['-', letter]))
    | some flag =>
      if flag.takesValue then
        match rest with
        | [] => .ok (r, some flag)
        | '=' :: value => return (← r.give flag (String.ofList value), none)
        | value => return (← r.give flag (String.ofList value), none)
      else do takeShort (← r.give flag "") rest

/-- Takes the words behind two dashes alone. -/
def takeFiles (r : Reading) (words : List String) : Read Reading := words.foldlM takeFile r

/-- Whether these words, behind the one that asks for help, name at most one task. -/
def namesHelp : List String → Bool
  | [] => true
  | [word] => word = "help" || (Level.ofTask? word).isSome
  | _ => false

/-- Takes all arguments, where a flag may be waiting for its value. -/
def takeAll (r : Reading) : (waiting : Option Flag) → List String → Read Reading
  | none, [] => .ok r
  | some flag, [] => refuse (.noValue flag)
  | some flag, word :: rest =>
    match word.toList with
    | '-' :: _ :: _ => refuse (.noValue flag)
    | _ => do takeAll (← r.give flag word) none rest
  | none, word :: rest =>
    match word.toList with
    | ['-', '-'] => r.takeFiles rest
    | '-' :: '-' :: body => do
      let (r, waiting) ← r.takeLong body
      takeAll r waiting rest
    | '-' :: letter :: letters => do
      let (r, waiting) ← r.takeShort (letter :: letters)
      takeAll r waiting rest
    | _ =>
      if r.level = .top && word = "help" then
        if namesHelp rest then .error .help else refuse (.unexpected word)
      else do takeAll (← r.takeWord word) none rest

/-- The values of a flag at the level that was reached. -/
def values (r : Reading) (flag : Flag) : List String :=
  r.given.filterMap fun (f, value) => if f = flag then some value else none

/-- The value of a flag, where the level that was reached goes first. -/
def value? (r : Reading) (flag : Flag) : Option String :=
  r.given.lookup flag <|> r.inherited.lookup flag

/-- Whether a flag was given anywhere. -/
def has (r : Reading) (flag : Flag) : Bool := (r.value? flag).isSome

end Reading

/-- What to render, and how. -/
structure Order where
  /-- The master. -/
  input : Path
  /-- The file the output goes to, if it is not the master itself. -/
  output : Option Path
  /-- The mode, if it is not left to the configuration. -/
  mode : Option Mode
  /-- Variables of templates. -/
  assigned : List (String × String)
  /-- A file with variables of templates. -/
  contextFile : Option Path
  /-- Whether markers are removed, if it is not left to the configuration. -/
  removeMarkers : Option Bool

/-- A task. -/
inductive Task where
  /-- Writes an output. -/
  | render (order : Order)
  /-- Tells whether an output is as it should be, and how it differs if that is asked for. -/
  | check (order : Order) (showDiff : Bool)
  /-- Lists the edits of a file. -/
  | edits (file : Path) (format : ListFormat)

/-- What a command line asks for. -/
structure Invocation where
  /-- The root of the project, if it is not the current directory. -/
  root : Option Path
  /-- Whether there is more output. -/
  verbose : Bool
  /-- Whether output has no colours. -/
  noColor : Bool
  /-- The task, if one is named. -/
  task : Option Task

namespace Invocation

/-- The order given by what has been read. -/
def orderOf (r : Reading) (input : Path) : Order where
  input := input
  output := r.value? .output
  mode := (r.value? .mode).bind modeNamed?
  assigned := (r.values .assign).filterMap Variables.assignment?
  contextFile := r.value? .context
  removeMarkers := (r.value? .removeMarkers).bind boolNamed?

/-- The task given by what has been read. -/
def taskOf (r : Reading) : Read (Option Task) :=
  match r.level, r.file? with
  | .top, _ => .ok none
  | .render, some file => .ok (some (.render (orderOf r file)))
  | .check, some file => .ok (some (.check (orderOf r file) (r.has .diff)))
  | .edits, some file =>
    .ok (some (.edits file (((r.value? .format).bind formatNamed?).getD .text)))
  | _, none => Reading.refuse .noFile

/-- What the arguments ask for. -/
def ofArguments (arguments : List String) : Read Invocation := do
  let r ← Reading.takeAll {} none arguments
  return { root := r.value? .path, verbose := r.has .verbose, noColor := r.has .noColor
           task := ← taskOf r }

end Invocation

end Regen.Command
