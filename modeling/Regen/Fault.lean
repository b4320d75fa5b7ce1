import Regen.Location
import Regen.Settings

/-!
# Failures

A failure is a fault together with the trail that led to it: the markers that were being
resolved when it arose, outermost first. Faults are causes. Their wording, codes and advice are
functions on them.
-/

namespace Regen

/-- A failure reported by a template renderer. -/
structure TemplateError where
  /-- A short category, such as `syntax error`. -/
  kind : String
  /-- What went wrong. -/
  message : String
  /-- The line in the rendered text, if it is known. -/
  line : Option Nat := none
  deriving DecidableEq

/-- The error as one line. -/
def TemplateError.render (e : TemplateError) : String :=
  let base := s!"{e.kind}: {e.message}"
  match e.line with
  | some line => s!"{base} (line {line})"
  | none => base

/-- Why a file could not be read or written. -/
inductive FileError where
  /-- There is no such file or directory. -/
  | notFound
  /-- A directory stands where a file is needed. -/
  | isDirectory
  /-- A file stands where a directory is needed. -/
  | notDirectory
  /-- The bytes of the file are no text. -/
  | invalidText
  /-- A template that came from no file was to be written without a path. -/
  | noOutputPath
  deriving DecidableEq, Repr

/-- The wording of a file error. -/
def FileError.message : FileError → String
  | .notFound => "No such file or directory (os error 2)"
  | .isDirectory => "Is a directory (os error 21)"
  | .notDirectory => "Not a directory (os error 20)"
  | .invalidText => "stream did not contain valid UTF-8"
  | .noOutputPath => "no output path given for a template without an input file"

/-- Why a configuration could not be used. -/
inductive ConfigError where
  /-- The text is not of the configuration's format, or a key has a value of a wrong type. -/
  | malformed
  /-- A context value is infinite or no number at all; `shown` is how it is written. -/
  | notFinite (shown : String)
  deriving DecidableEq, Repr

/-- The wording of a configuration error. -/
def ConfigError.message : ConfigError → String
  | .malformed => "the text is not a valid configuration"
  | .notFinite shown => s!"context value `{shown}` is not a finite number"

/-- What can be wrong at a place in a text. -/
inductive Problem where
  /-- An end marker ends nothing. -/
  | strayEnd (marker : Text)
  /-- A marker is opened and never closed. -/
  | unclosedMarker (closer : Text)
  /-- A block is opened and never ended. -/
  | unendedBlock (endMarker : Text)
  /-- A header takes several lines where one is asked for. -/
  | headerMustBeInline
  /-- A header takes one line where several are asked for. -/
  | headerMustBeMultiline
  /-- A line of a header does not repeat the prefix of the first. -/
  | headerIndentation
  /-- A marker stands on the line of the marker before it. -/
  | newlineRequired
  /-- A marker does not stand on the line of the marker before it. -/
  | sameLineRequired
  /-- A marker is ended by one of the other family. -/
  | wrongInclusion
  /-- Two edits of one text have the same name. -/
  | duplicateEdit (marker : Text)
  /-- An edit stands directly inside an edit. -/
  | directlyEnclosedEdit (marker endMarker : Text)
  /-- The body of an inline block takes several lines. -/
  | bodyMustBeInline
  /-- The body of an edit would be lost. -/
  | lostEdit (marker : Text)
  /-- An edit is asked for twice. -/
  | repeatedEdit (marker : Text)
  /-- Generated text is nested too deeply. -/
  | tooDeeplyNested (limit : Nat)
  deriving DecidableEq

/-- Which token of a family a setting is about. -/
inductive TokenRole where
  /-- The token that opens a marker. -/
  | opener
  /-- The token that closes a marker. -/
  | closer
  /-- The header of an end marker. -/
  | endWord
  deriving DecidableEq, Repr

/-- The cause of a failure. -/
inductive Fault where
  /-- Something is wrong at a place in a text. -/
  | inText (problem : Problem) (place : Location)
  /-- A token is empty. -/
  | emptyToken (family : Family) (role : TokenRole)
  /-- The renderer failed. -/
  | template (error : TemplateError)
  /-- The configuration cannot be used. -/
  | config (error : ConfigError)
  /-- A file could not be read or written. -/
  | file (error : FileError)
  deriving DecidableEq

/-- The family as it is written in messages. -/
def Family.label : Family → String
  | .generation => "generation"
  | .edit => "edit"

/-- The key under which a token is configured. -/
def TokenRole.label : TokenRole → String
  | .opener => "open"
  | .closer => "close"
  | .endWord => "end"

/-- The wording of a problem. -/
def Problem.message : Problem → String
  | .strayEnd marker => s!"couldn't find corresponding open marker \"{marker.shown}\""
  | .unclosedMarker closer => s!"couldn't find corresponding close marker \"{closer.shown}\""
  | .unendedBlock marker => s!"couldn't find corresponding end marker \"{marker.shown}\""
  | .headerMustBeInline => "marker can't have a multiline header"
  | .headerMustBeMultiline => "marker can't have a one line header"
  | .headerIndentation => "wrong marker header indentation"
  | .newlineRequired => "marker can't start on same line as previous end marker"
  | .sameLineRequired => "marker must start on same line as previous marker"
  | .wrongInclusion => "marker has wrong inclusion regarding enclosing markers"
  | .duplicateEdit marker =>
    s!"duplicate edit marker \"{marker.shown}\", consider reusing/removing duplicates"
  | .directlyEnclosedEdit marker endMarker =>
    s!"directly enclosed edit marker \"{marker.shown}\", probably missing \"{endMarker.shown}\""
  | .bodyMustBeInline => "generated body must contain only one line to be inlined"
  | .lostEdit marker =>
    s!"non-generated edit marker \"{marker.shown}\", consider reusing/removing it"
  | .repeatedEdit marker =>
    s!"already generated edit marker \"{marker.shown}\", consider fixing generation"
  | .tooDeeplyNested limit => s!"markers are nested more than {limit} levels deep"

/-- The name under which a problem is documented. -/
def Problem.code : Problem → String
  | .strayEnd _ => "cogmark::open_marker_not_found"
  | .unclosedMarker _ => "cogmark::close_marker_not_found"
  | .unendedBlock _ => "cogmark::end_marker_not_found"
  | .headerMustBeInline => "cogmark::header_must_be_inline"
  | .headerMustBeMultiline => "cogmark::header_must_be_multiline"
  | .headerIndentation => "cogmark::wrong_header_indentation"
  | .newlineRequired => "cogmark::require_newline"
  | .sameLineRequired => "cogmark::require_inline"
  | .wrongInclusion => "cogmark::wrong_inclusion"
  | .duplicateEdit _ => "cogmark::duplicate_edit"
  | .directlyEnclosedEdit _ _ => "cogmark::directly_enclosed_edit"
  | .bodyMustBeInline => "cogmark::body_must_be_inline"
  | .lostEdit _ => "cogmark::non_generated_edit"
  | .repeatedEdit _ => "cogmark::already_generated_edit"
  | .tooDeeplyNested _ => "cogmark::too_deeply_nested"

/-- What to do about a problem, where there is something to say. -/
def Problem.help : Problem → Option String
  | .strayEnd _ => some "remove the stray end marker or add the open marker it belongs to"
  | .unendedBlock marker => some s!"add `{marker.shown}` after the marker body"
  | .headerIndentation => some
    "continuation lines must repeat the indentation and comment prefix of the first header line"
  | .lostEdit _ => some
    "the edited code would be lost; regenerate this edit marker or delete it"
  | .tooDeeplyNested _ => some
    "a generation header probably reproduces itself; raise `max_depth` if the nesting is intended"
  | _ => none

/-- Whether a problem lies in how the markers of a text are written and arranged. -/
def Problem.isParsing : Problem → Bool
  | .strayEnd _ | .unclosedMarker _ | .unendedBlock _ | .headerMustBeInline
  | .headerMustBeMultiline | .headerIndentation | .newlineRequired | .sameLineRequired
  | .wrongInclusion | .duplicateEdit _ | .directlyEnclosedEdit _ _ => true
  | .bodyMustBeInline | .lostEdit _ | .repeatedEdit _ | .tooDeeplyNested _ => false

/-- Whether a problem arose while output was generated. -/
def Problem.isGeneration (p : Problem) : Bool := !p.isParsing

namespace Fault

/-- The wording of a fault. -/
def message : Fault → String
  | .inText problem place => s!"{problem.message}:\n{place.render}"
  | .emptyToken family role =>
    s!"invalid settings: {family.label} marker `{role.label}` token is empty"
  | .template error => s!"template rendering failed: {error.render}"
  | .config error => s!"failed to parse config file: {error.message}"
  | .file error => error.message

/-- The name under which a fault is documented. -/
def code : Fault → String
  | .inText problem _ => problem.code
  | .emptyToken _ _ => "cogmark::invalid_settings"
  | .template _ => "cogmark::template"
  | .config _ => "cogmark::config_parse"
  | .file _ => "cogmark::io_error"

/-- What to do about a fault, where there is something to say. -/
def help : Fault → Option String
  | .inText problem _ => problem.help
  | .emptyToken _ _ => some "marker open, close and end tokens must be non-empty"
  | .config _ => some <|
    "check that cogmark.toml is valid TOML with [generation], [edit], [templates] " ++
      "and/or [context] sections"
  | .template _ | .file _ => none

/-- Where the fault lies, if it lies in a text. -/
def place? : Fault → Option Location
  | .inText _ place => some place
  | _ => none

/-- Whether a fault lies in how the markers of a text are written and arranged. -/
def isParsing : Fault → Bool
  | .inText problem _ => problem.isParsing
  | _ => false

/-- Whether a fault arose while output was generated. -/
def isGeneration : Fault → Bool
  | .inText problem _ => problem.isGeneration
  | _ => false

end Fault

/-- What was being done with a marker. -/
inductive Action where
  /-- Its header was rendered and the result evaluated. -/
  | generation
  /-- Its body was put back. -/
  | reinsertion
  deriving DecidableEq, Repr

/-- The action as it is written in messages. -/
def Action.label : Action → String
  | .generation => "generation"
  | .reinsertion => "reinsertion"

/-- One step of the trail to a fault. -/
structure Frame where
  /-- What was being done. -/
  action : Action
  /-- The marker it was done with, cut short. -/
  marker : Text
  /-- The line of that marker in its own text. -/
  line : Nat
  /-- The column of that marker in its own text. -/
  column : Nat
  deriving DecidableEq

/-- The step as one line. -/
def Frame.render (f : Frame) : String :=
  s!"During {f.action.label} of \"{f.marker.shown}\" at line {f.line}, column {f.column}"

/-- A fault and the trail to it. -/
structure Failure where
  /-- The markers being resolved when the fault arose, outermost first. -/
  trail : List Frame := []
  /-- What went wrong. -/
  cause : Fault
  deriving DecidableEq

namespace Failure

/-- The failure as seen from outside the marker that was being resolved. -/
def within (f : Failure) (frame : Frame) : Failure := { f with trail := frame :: f.trail }

/-- The whole message: the trail, a line a step, and the fault. -/
def message (f : Failure) : String :=
  String.join (f.trail.map fun frame => s!"  {frame.render}\n") ++ f.cause.message

/-- The code of the failure, which is its fault's own unless there is a trail to it. -/
def code (f : Failure) : String :=
  if f.trail.isEmpty then f.cause.code else "cogmark::nested"

end Failure

/-- A computation that may fail. -/
abbrev Outcome := Except Failure

/-- Fails with a fault and no trail. -/
def fail {α : Type} (cause : Fault) : Outcome α := .error { cause }

/-- Fails with a problem at a place. -/
def failAt {α : Type} (problem : Problem) (place : Location) : Outcome α :=
  fail (.inText problem place)

end Regen
