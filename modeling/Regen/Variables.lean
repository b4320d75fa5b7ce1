import Regen.FileTree
import Regen.Json.Reader
import Regen.Text.Trim

/-!
# Variables from outside

Besides the configuration, the variables of templates come from a JSON file and from the command
line. A later source wins over an earlier one, and of two assignments of one source the later one
wins.
-/

namespace Regen

/-- Why the variables of templates could not be put together. -/
inductive VariableError where
  /-- The file with variables could not be read. -/
  | file (error : FileError)
  /-- The file with variables is no JSON. -/
  | malformed
  /-- The file with variables holds something else than an object. -/
  | notAnObject (path : Path)
  deriving DecidableEq

/-- The wording of such an error. -/
def VariableError.message : VariableError → String
  | .file error => error.message
  | .malformed => "the context file is not valid JSON"
  | .notAnObject path => s!"context file {path} must hold a JSON object"

namespace Variables

/-- A name and a value written around the first equals sign. The white space around the name is
left out, and something has to remain of it. -/
def assignment? (raw : String) : Option (String × String) :=
  let cs := raw.toList
  match cs.dropWhile (· ≠ '=') with
  | [] => none
  | _ :: value =>
    let name := (Text.trim (String.ofList (cs.takeWhile (· ≠ '=')))).shown
    if name.isEmpty then none else some (name, String.ofList value)

/-- What is wrong with something that is no assignment. -/
def assignmentMessage (raw : String) : String := s!"expected KEY=VALUE, got `{raw}`"

/-- The variables in a JSON file. -/
def ofFile (tree : FileTree) (path : Path) : Except VariableError Fields :=
  match tree.readText path with
  | .error e => .error (.file e)
  | .ok t =>
    match Json.read? t.shown with
    | some (.object fields) => .ok fields
    | some _ => .error (.notAnObject path)
    | none => .error .malformed

/-- The variables of the configuration with those of a file and of the command line on top. -/
def layered (tree : FileTree) (base : Context) (path? : Option Path)
    (assigned : List (String × String)) : Except VariableError Context := do
  let fields ← match path? with
    | some path => ofFile tree path
    | none => pure []
  return (Fields.union base fields).union (assigned.map fun (name, value) => (name, .str value))

end Variables

end Regen
