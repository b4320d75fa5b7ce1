import Regen.FileTree
import Regen.Toml.Reader
import Regen.Value

/-!
# Configuration

A project is configured by a TOML file. Keys it does not know are ignored; a known key with a value
of a wrong type makes the whole file unusable. What is not configured keeps its standard value.
-/

namespace Regen

/-- What a project configures. -/
structure Config where
  /-- The tokens of generation markers. -/
  generation : Tokens
  /-- The tokens of edit markers. -/
  edit : Tokens
  /-- Whether markers are removed. -/
  removeMarkers : Option Bool
  /-- How deeply generated text may be nested. -/
  maxDepth : Nat
  /-- What a line feed is written as in files. -/
  newline : Option Text
  /-- How templates are turned into output. -/
  mode : Option Mode
  /-- Where included templates are looked up, from the root of the project. -/
  templatePaths : List Path
  /-- The variables of all templates. -/
  context : Toml.Table

namespace Config

/-- Where a configuration is looked for, from the root of the project. -/
def candidates : List Path := ["cogmark.toml", ".cogmark.toml", ".config/cogmark.toml"]

/-- The reading of a table, which either is of the right form or is not. -/
abbrev Decoded := Except ConfigError

/-- The value of a key, read by `read`, if the key is there. -/
def optional {α : Type} (table : Toml.Table) (key : String) (read : Toml.Value → Option α) :
    Decoded (Option α) :=
  match table.lookup key with
  | none => .ok none
  | some v =>
    match read v with
    | some a => .ok (some a)
    | none => .error .malformed

/-- A string. -/
def string? : Toml.Value → Option String
  | .str s => some s
  | _ => none

/-- A text. -/
def text? (v : Toml.Value) : Option Text := (string? v).map Text.ofString

/-- A truth value. -/
def bool? : Toml.Value → Option Bool
  | .bool b => some b
  | _ => none

/-- A number that is not negative. -/
def nat? : Toml.Value → Option Nat
  | .int n => if 0 ≤ n then some n.toNat else none
  | _ => none

/-- A table. -/
def table? : Toml.Value → Option Toml.Table
  | .table fields => some fields
  | _ => none

/-- A list of strings. -/
def strings? : Toml.Value → Option (List String)
  | .array items => items.mapM string?
  | _ => none

/-- A rule for headers. -/
def headerRule? : Toml.Value → Option HeaderRule
  | .str "any" => some .any
  | .str "inline" => some .inline
  | .str "multiline" => some .multiline
  | _ => none

/-- A mode. -/
def mode? : Toml.Value → Option Mode
  | .str "directive" => some .directive
  | .str "document" => some .document
  | _ => none

/-- The tokens of a family, where those not configured are taken from `standard`. -/
def tokens (root : Toml.Table) (key : String) (standard : Tokens) : Decoded Tokens := do
  let table := (← optional root key table?).getD []
  return {
    opener := (← optional table "open" text?).getD standard.opener
    closer := (← optional table "close" text?).getD standard.closer
    endWord := (← optional table "end" text?).getD standard.endWord
    asComment := (← optional table "as_comment" bool?).getD standard.asComment
    headerRule := (← optional table "header" headerRule?).getD standard.headerRule }

/-- The configuration written in a table. -/
def ofTable (root : Toml.Table) : Decoded Config := do
  let generation ← tokens root "generation" .generation
  let edit ← tokens root "edit" .edit
  let removeMarkers ← optional root "remove_markers" bool?
  let maxDepth ← optional root "max_depth" nat?
  let newline ← optional root "newline" text?
  let mode ← optional root "mode" mode?
  let templates := (← optional root "templates" table?).getD []
  let templatePaths := (← optional templates "paths" strings?).getD []
  let context := (← optional root "context" table?).getD []
  return {
    generation, edit, removeMarkers, newline, mode, templatePaths, context
    maxDepth := maxDepth.getD Settings.standard.maxDepth }

/-- The configuration written in a TOML text. -/
def ofToml (s : String) : Decoded Config :=
  match Toml.read? s with
  | some table => ofTable table
  | none => .error .malformed

/-- The settings of the project at `root`. -/
def settings (c : Config) (root : Path) : Settings where
  generation := c.generation
  edit := c.edit
  removeMarkers := c.removeMarkers
  maxDepth := c.maxDepth
  newline := c.newline
  templateDirs := c.templatePaths.map (Path.join root)

/-- The configuration file of the project at `root`: the first candidate that is a file. -/
def find? (tree : FileTree) (root : Path) : Option Path :=
  (candidates.map (Path.join root)).find? tree.isFile

/-- The configuration of the project at `root`, if it has a file for it. -/
def load (tree : FileTree) (root : Path) : Outcome (Option Config) :=
  match find? tree root with
  | none => .ok none
  | some p =>
    match tree.readText p with
    | .error e => fail (.file e)
    | .ok t =>
      match ofToml t.shown with
      | .ok c => .ok (some c)
      | .error e => fail (.config e)

/-- How a number that is not finite is written. -/
def shownNotFinite (x : Float) : String :=
  if x.isNaN then "NaN" else if x < 0 then "-inf" else "inf"

mutual

/-- The template value of a configured value. -/
def valueOf : Toml.Value → Decoded Value
  | .str s => .ok (.str s)
  | .int n => .ok (.int n)
  | .bool b => .ok (.bool b)
  | .moment shown => .ok (.str shown)
  | .float x => if x.isFinite then .ok (.float x) else .error (.notFinite (shownNotFinite x))
  | .array items => do return .list (← valuesOf items)
  | .table fields => do return .object (Fields.ofList (← fieldsOf fields))

/-- The template values of the items of an array. -/
def valuesOf : List Toml.Value → Decoded (List Value)
  | [] => .ok []
  | v :: rest => do return (← valueOf v) :: (← valuesOf rest)

/-- The template values of the fields of a table. -/
def fieldsOf : Toml.Table → Decoded Fields
  | [] => .ok []
  | (key, v) :: rest => do return (key, ← valueOf v) :: (← fieldsOf rest)

end

/-- The variables of all templates. -/
def sharedContext (c : Config) : Decoded Context := do return Fields.ofList (← fieldsOf c.context)

end Config

end Regen
