import Regen.Command.Arguments
import Regen.Command.Style
import Regen.Config
import Regen.Diff
import Regen.Json.Printer
import Regen.Master
import Regen.Template.Library

/-!
# Carrying out tasks

A run turns a file tree, the environment and the arguments into what is printed, an exit code and a
file tree. The code is zero for success, one if a check fails or no task is named, and two for every
failure. Paths are printed as seen from the root of the project.
-/

namespace Regen.Command

/-- What a run leaves behind. -/
structure Answer where
  /-- The exit code. -/
  code : Nat
  /-- What is printed for the user or for other programs. -/
  stdout : String := ""
  /-- What is printed about failures. -/
  stderr : String := ""
  /-- The files afterwards. -/
  tree : FileTree

/-- Why a task cannot be carried out. -/
inductive Trouble where
  /-- A failure to read or generate a text. -/
  | failure (f : Failure)
  /-- The variables of templates cannot be put together. -/
  | context (e : VariableError)

/-- The wording of a trouble. -/
def Trouble.message : Trouble → String
  | .failure f => f.message
  | .context e => e.message

/-- An outcome as part of a task. -/
def attempt {α : Type} : Outcome α → Except Trouble α
  | .ok a => .ok a
  | .error f => .error (.failure f)

/-- What all tasks have in common. -/
structure Workplace where
  /-- The files. -/
  tree : FileTree
  /-- The root of the project. -/
  root : Path
  /-- How output is emphasised. -/
  style : Style
  /-- Whether there is more output. -/
  verbose : Bool
  /-- The variable of the environment that decides about markers where nothing else does. -/
  switch? : Option String

/-- What is needed to regenerate a text, besides the text. -/
structure Project where
  /-- The settings. -/
  settings : Settings
  /-- The mode. -/
  mode : Mode
  /-- The variables of templates. -/
  context : Context

/-- The name of a mode. -/
def modeName : Mode → String
  | .directive => "directive"
  | .document => "document"

namespace Workplace

/-- A path as seen from the root of the project. -/
def shown (w : Workplace) (p : Path) : String := Path.shownFrom w.root p

/-- The answer to a trouble, after something has been printed already. -/
def refuse (w : Workplace) (printed : String) (e : Trouble) : Answer :=
  { code := 2, stdout := printed, tree := w.tree
    stderr := w.style.red "error:" ++ s!" {e.message}\n" }

/-- The settings of the project, and its configuration if it has one. -/
def settings (w : Workplace) : Outcome (Settings × Option Config) := do
  let config? ← Config.load w.tree w.root
  match config? with
  | some c => return (c.settings w.root, some c)
  | none => return (.standard, none)

/-- Puts together what is needed to carry out an order. -/
def project (w : Workplace) (o : Order) : Except Trouble Project := do
  let (settings, config?) ← attempt w.settings
  let mode := (o.mode <|> config?.bind Config.mode).getD .directive
  let base ← match config? with
    | none => pure []
    | some c =>
      match c.sharedContext with
      | .ok context => pure context
      | .error e => attempt (fail (.config e))
  match Variables.layered w.tree base (o.contextFile.map (Path.join w.root)) o.assigned with
  | .ok context => return { settings, mode, context }
  | .error e => .error (.context e)

/-- What is printed ahead of an order if there is to be more output. -/
def preface (w : Workplace) (p : Project) : String :=
  if w.verbose then
    let path := (Config.find? w.tree w.root).getD "none"
    s!"Config: {path}\nMode: {modeName p.mode}\n"
  else ""

/-- The master of an order. -/
def master (w : Workplace) (o : Order) (p : Project) : Outcome Master :=
  Master.ofFile w.tree p.settings p.mode (Path.join w.root o.input)

/-- What goes into the output of an order. -/
def recipe (w : Workplace) (o : Order) (p : Project) : Recipe where
  renderer := Template.renderer (Template.loaderOf w.tree p.settings.templateDirs) []
  context := p.context
  removeMarkers := o.removeMarkers.getD (p.settings.removesMarkers w.switch?)

/-- Where the output of an order goes, if that is said. -/
def output (w : Workplace) (o : Order) : Option Path := o.output.map (Path.join w.root)

/-! ## Writing outputs -/

/-- The label of a status. -/
def label (w : Workplace) : Status → String
  | .created => w.style.green Status.created.label
  | .changed => w.style.yellow Status.changed.label
  | .unchanged => Status.unchanged.label

/-- One line about an output that was written. -/
def summary (w : Workplace) (input : Path) (r : Rendered) : String :=
  let head := w.style.bold "[cogmark]" ++ s!"  {w.label r.status}  {w.shown r.path}"
  if r.path.steps = input.steps then s!"{head}\n" else s!"{head}  (from {w.shown input})\n"

/-- Writes the output of an order. -/
def render (w : Workplace) (o : Order) : Answer :=
  match w.project o with
  | .error e => w.refuse "" e
  | .ok p =>
    let written : Outcome (Rendered × FileTree) := do
      (← w.master o p).renderFile w.tree (w.recipe o p) (w.output o)
    match written with
    | .error f => w.refuse (w.preface p) (.failure f)
    | .ok (rendered, tree) =>
      { code := 0, tree
        stdout := w.preface p ++ w.summary (Path.join w.root o.input) rendered }

/-! ## Comparing outputs -/

/-- A line of a difference, which ends even where the text does not. -/
def diffLine (line : Text) : String :=
  if line.isEnded then line.shown else line.shown ++ "\n"

/-- A run of a difference: each of its lines behind a mark. -/
def diffRun (w : Workplace) : Diff.Run Text → String
  | .keep lines => String.join (lines.map fun line => "   " ++ diffLine line)
  | .delete lines => String.join (lines.map fun line => "  " ++ w.style.red ("-" ++ diffLine line))
  | .insert lines => String.join (lines.map fun line => "  " ++ w.style.green ("+" ++ diffLine line))

/-- The difference between the output there is and the output there should be. -/
def difference (w : Workplace) (r : Rendered) : Outcome String := do
  let current ← Outcome.ofFile (w.tree.readText r.path)
  return String.join ((Diff.ofTexts current.normalizeNewlines r.content).map w.diffRun)

/-- The answer if an output is not as it should be. -/
def failed (w : Workplace) (printed what details : String) : Answer :=
  { code := 1, stdout := printed, tree := w.tree
    stderr := w.style.red "Check failed:" ++
      s!" {what}\n{details}Run `cogmark render` to fix.\n" }

/-- Tells whether the output of an order is as it should be. -/
def check (w : Workplace) (o : Order) (showDiff : Bool) : Answer :=
  match w.project o with
  | .error e => w.refuse "" e
  | .ok p =>
    let printed := w.preface p
    let preview : Outcome (Rendered × String) := do
      let r ← (← w.master o p).preview w.tree (w.recipe o p) (w.output o)
      if showDiff && r.status = .changed then return (r, ← w.difference r) else return (r, "")
    match preview with
    | .error f => w.refuse printed (.failure f)
    | .ok (r, details) =>
      let path := w.shown r.path
      match r.status with
      | .unchanged =>
        { code := 0, stdout := s!"{printed}Check passed: {path} is up to date.\n", tree := w.tree }
      | .created => w.failed printed s!"{path} does not exist yet." ""
      | .changed => w.failed printed s!"{path} is out of date." details

/-! ## Listing edits -/

/-- The lines of a body, each without its end. A body that ends in a line feed has no last line
behind it. -/
def bodyLines (body : Text) : List Text :=
  let lines := body.normalizeNewlines.lines
  if lines.getLast? = some [] then lines.dropLast else lines

/-- An edit as it is listed: its name and line, and its indented body. -/
def listed (w : Workplace) (e : EditBlock) : String :=
  let line := (e.block.opening.place e.source).line
  let body := match e.content with
    | some body => String.join ((bodyLines body).map fun l => s!"    {Text.shown l}\n")
    | none => "    " ++ w.style.yellow "(empty)" ++ "\n"
  s!"{w.style.bold e.name.shown} (line {line})\n{body}"

/-- Edits as an object: the bodies by name. -/
def objectOf (edits : Edits) : Value :=
  .object (Fields.ofList (edits.map fun e =>
    (e.name.shown, (e.content.map fun body => Value.str body.shown).getD .null)))

/-- Lists the edits of a file. -/
def edits (w : Workplace) (file : Path) (format : ListFormat) : Answer :=
  let path := Path.join w.root file
  let read : Outcome Document := do
    let (settings, _) ← w.settings
    Document.parse settings (← Outcome.ofFile (w.tree.readText path))
  match read with
  | .error f => w.refuse "" (.failure f)
  | .ok d =>
    let stdout := match format with
      | .json => Json.render (objectOf d.edits) ++ "\n"
      | .text =>
        if d.edits.isEmpty then s!"No edit blocks found in {w.shown path}.\n"
        else String.join (d.edits.map w.listed)
    { code := 0, stdout, tree := w.tree }

/-- Carries out a task. -/
def perform (w : Workplace) : Task → Answer
  | .render o => w.render o
  | .check o showDiff => w.check o showDiff
  | .edits file format => w.edits file format

end Workplace

/-! ## Runs -/

/-- The name and version of the program. -/
def versionLine : String := "cogmark_cli 0.1.0\n"

/-- A description of the program. -/
def helpText : String :=
  "Regenerate code from inline template markers without losing hand-written edits.\n\n" ++
  "Usage: cogmark [OPTIONS] [COMMAND]\n\n" ++
  "Commands:\n" ++
  "  render <INPUT>  Render a template and write the output\n" ++
  "  check <INPUT>   Check that the output of a template is up to date\n" ++
  "  edits <FILE>    List the edit blocks of a file and their bodies\n"

/-- The environment of a run: its variables by name. -/
abbrev Environment := List (String × String)

/-- The answer to a command line that names no task to carry out. -/
def answerStop (tree : FileTree) : Stop → Answer
  | .help => { code := 0, stdout := helpText, tree }
  | .version => { code := 0, stdout := versionLine, tree }
  | .refused why => { code := 2, stderr := s!"error: {why.message}\n", tree }

/-- The path of the current directory. -/
def currentPath (tree : FileTree) : Path := "/" ++ "/".intercalate tree.here

/-- Where an invocation is carried out. -/
def workplace (tree : FileTree) (environment : Environment) (i : Invocation) : Workplace where
  tree := tree
  root := i.root.getD (currentPath tree)
  style := ⟨!i.noColor && (environment.lookup "NO_COLOR").isNone⟩
  verbose := i.verbose
  switch? := environment.lookup Settings.removeMarkersVariable

/-- Carries out what the arguments ask for. -/
def run (tree : FileTree) (environment : Environment) (arguments : List String) : Answer :=
  match Invocation.ofArguments arguments with
  | .error stop => answerStop tree stop
  | .ok i =>
    match i.task with
    | some task => (workplace tree environment i).perform task
    | none =>
      { code := 1, tree
        stderr := "No subcommand specified. Run `cogmark --help` for usage.\n" }

end Regen.Command
