import Regen.Command.Run

/-!
# The program

The program takes what a run can ask for into a file tree, carries the run out on that, prints what
is to be printed and writes the files that are different afterwards.
-/

namespace Regen.Program

/-- What stands at a path, if anything that can be read. -/
def look (path : Path) : IO (Option Entry) := do
  try
    return some (.file (← IO.FS.readBinFile path).toList)
  catch
    | .inappropriateType .. => return some .directory
    | _ => return none

/-- The tree with all that stands on the way to a path. -/
def observe (tree : FileTree) (path : Path) : IO FileTree := do
  let lead := if path.isAbsolute then "/" else ""
  (Path.fronts path.pieces).foldlM (fun tree pieces => do
    match ← look (lead ++ "/".intercalate pieces) with
    | some entry => return tree.set (pieces.foldl FileTree.advance (tree.start path)) entry
    | none => return tree) tree

/-- The tree with all that stands below a directory. -/
partial def observeBelow (tree : FileTree) (dir : Path) : IO FileTree := do
  let tree ← observe tree dir
  match ← look dir with
  | some .directory =>
    let entries ← (← IO.FS.realPath dir).readDir
    entries.foldlM (fun tree entry => observeBelow tree (Path.join dir entry.fileName)) tree
  | _ => return tree

/-- The paths that a task can read or write. -/
def pathsOf (root : Path) : Command.Task → List Path
  | .render o | .check o _ =>
    (o.input :: (o.output.toList ++ o.contextFile.toList)).map (Path.join root)
  | .edits file _ => [Path.join root file]

/-- The files that a run can ask for. -/
def gather (here : Place) (environment : Command.Environment) (arguments : List String) :
    IO FileTree := do
  let start : FileTree := ({ here } : FileTree).add here .directory
  match Command.Invocation.ofArguments arguments with
  | .error _ => return start
  | .ok i =>
    let w := Command.workplace start environment i
    let paths := Config.candidates.map (Path.join w.root) ++
      (i.task.map (pathsOf w.root)).getD []
    let tree ← paths.foldlM observe start
    match ({ w with tree } : Command.Workplace).settings with
    | .ok (settings, _) => settings.templateDirs.foldlM observeBelow tree
    | .error _ => return tree

/-- Writes the files of a tree that another one does not have. -/
def save (before after : FileTree) : IO Unit := do
  for (place, bytes) in after.files do
    unless before.entry? place = some (.file bytes) do
      IO.FS.writeBinFile ("/" ++ "/".intercalate place) ⟨bytes.toArray⟩

/-- The variables of the environment that a run can ask for. -/
def environment : IO Command.Environment := do
  let names := ["NO_COLOR", Settings.removeMarkersVariable]
  let values ← names.mapM fun name => return (← IO.getEnv name).map (name, ·)
  return values.filterMap id

end Regen.Program

/-- Carries out what the arguments ask for. -/
def main (arguments : List String) : IO UInt32 := do
  let here := (Regen.Path.pieces (← IO.currentDir).toString).filter (!Regen.Path.isTrivial ·)
  let environment ← Regen.Program.environment
  let tree ← Regen.Program.gather here environment arguments
  let answer := Regen.Command.run tree environment arguments
  IO.print answer.stdout
  IO.eprint answer.stderr
  Regen.Program.save tree answer.tree
  return answer.code.toUInt32
