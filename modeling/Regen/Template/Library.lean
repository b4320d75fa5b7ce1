import Regen.FileTree
import Regen.Renderer
import Regen.Template.Evaluate

/-!
# Template libraries

Templates that are named by others are files below certain directories. A name that is absolute or
that leads upwards names nothing, so no template can reach a file outside of these directories.
-/

namespace Regen.Template

/-- Whether a name stays below the directory that it is looked up in. -/
def staysBelow (name : String) : Bool :=
  (Path.steps name).all fun
    | .named _ | .here => true
    | .root | .up => false

/-- The first file of this name below one of the directories. A file that is there and cannot be
read ends the search. -/
def firstBelow (tree : FileTree) (name : String) : List Path → Loaded
  | [] => .missing
  | dir :: rest =>
    match tree.readText (Path.join dir name) with
    | .ok t => .source t.shown
    | .error .notFound => firstBelow tree name rest
    | .error _ => .unreadable

/-- Looks up templates below directories of a file tree. -/
def loaderOf (tree : FileTree) (dirs : List Path) : Loader := fun name =>
  if staysBelow name then firstBelow tree name dirs else .missing

/-- The renderer that takes texts for templates. -/
def renderer (load : Loader) (globals : Context) : Renderer := fun t context =>
  (render load globals context t.shown).map Text.ofString

end Regen.Template
