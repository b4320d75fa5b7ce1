import Regen.Template.Operand
import Regen.Template.Reader

/-!
# Evaluating templates

An expression is evaluated in the scopes around it. A statement changes a scene: what has been
printed, the scopes, and the parts that other templates can replace. A template built on another one
prints nothing from there on, and the other one is evaluated in its place at the end.

Statements recurse on their own structure. What leaves it, another template or a part of one, goes
through a function that is handed in, and that function recurses on the number of levels allowed.
-/

namespace Regen.Template

/-- Variables by name, the latest first. -/
abbrev Scope := List (String × Operand)

/-- What a template named by another one is. -/
inductive Loaded where
  /-- Its text. -/
  | source (s : String)
  /-- There is none of that name. -/
  | missing
  /-- There is something of that name, but no text. -/
  | unreadable

/-- Looks up templates by name. -/
abbrev Loader := String → Loaded

/-- The scopes around a place in a template. -/
structure Surroundings where
  /-- The scopes opened by the template, innermost first. -/
  scopes : List Scope
  /-- The values a template is rendered with. -/
  context : Context
  /-- The values that are there in all templates. -/
  globals : Context

namespace Surroundings

/-- The value of a variable, or nothing. -/
def lookup (s : Surroundings) (name : String) : Operand :=
  match s.scopes.findSome? (·.lookup name) with
  | some operand => operand
  | none =>
    match s.context.get? name <|> s.globals.get? name with
    | some v => .value v
    | none => .undefined false

/-- The surroundings with a variable set in the innermost scope. -/
def assign (s : Surroundings) (name : String) (operand : Operand) : Surroundings :=
  match s.scopes with
  | [] => { s with scopes := [[(name, operand)]] }
  | scope :: rest => { s with scopes := ((name, operand) :: scope) :: rest }

/-- The surroundings with one more scope. -/
def enter (s : Surroundings) (scope : Scope) : Surroundings :=
  { s with scopes := scope :: s.scopes }

/-- The surroundings without the innermost scope. -/
def leave (s : Surroundings) : Surroundings := { s with scopes := s.scopes.drop 1 }

end Surroundings

/-- A computation that fails with an error of the template. -/
abbrev Evaluated := Except TemplateError

/-- An allowed computation, whose refusal is reported at a line. -/
def atLine {α : Type} (line : Nat) : Allowed α → Evaluated α
  | .ok a => .ok a
  | .error r => .error { kind := r.kind, message := r.message, line := some line }

/-- A list of operands as a value, where nothing counts as no value. -/
def listOf (operands : List Operand) : Value :=
  .list (operands.map fun
    | .value v => v
    | .undefined _ => .null)

mutual

/-- What an expression comes to. -/
def eval (s : Surroundings) : Expr → Evaluated Operand
  | .const _ v => .ok (.value v)
  | .var _ name => .ok (s.lookup name)
  | .list _ items => do return .value (listOf (← evalAll s items))
  | .attr e name => do atLine e.lastLine (attributeOf name (← eval s e))
  | .item e index => do
    let container ← eval s e
    let index' ← eval s index
    atLine index.lastLine (element container index')
  | .neg e => do atLine e.lastLine (negative (← eval s e))
  | .not e => do return .value (.bool !(← atLine e.lastLine (← eval s e).isTrue))
  | .binary op left right => do
    let a ← eval s left
    let b ← eval s right
    atLine right.lastLine (op.apply a b)
  | .both left right => do
    let a ← eval s left
    if ← atLine left.lastLine a.isTrue then eval s right else return a
  | .either left right => do
    let a ← eval s left
    if ← atLine left.lastLine a.isTrue then return a else eval s right
  | .cond test yes no => do
    if ← atLine test.lastLine (← eval s test).isTrue then eval s yes
    else
      match no with
      | some no => eval s no
      | none => return .undefined true
  | .filter name e args => do
    let operand ← eval s e
    let arguments ← evalAll s args
    atLine (lastLineOf args e.lastLine) (applyFilter name operand arguments)
  | .check name e => do return .value (.bool (← atLine e.lastLine (applyTest name (← eval s e))))
  | .call line name args => do
    let arguments ← evalAll s args
    let line := lastLineOf args line
    match s.lookup name with
    | .value v =>
      atLine line (.error (.invalid
        s!"value of type {(Operand.value v).kind} is not callable"))
    | .undefined _ =>
      if name = "range" then atLine line (range arguments)
      else atLine line (.error ⟨"unknown function", s!"{name} is unknown"⟩)

/-- What a row of expressions comes to. -/
def evalAll (s : Surroundings) : List Expr → Evaluated (List Operand)
  | [] => .ok []
  | e :: rest => do return (← eval s e) :: (← evalAll s rest)

end

/-- How far a template has been evaluated. -/
structure Scene where
  /-- What has been printed. -/
  printed : String
  /-- The scopes and values. -/
  around : Surroundings
  /-- For each replaceable part, the statements that take its place. -/
  blocks : List (String × List Stmt)
  /-- The template that this one turned out to be built on. -/
  base? : Option (List Stmt)
  /-- The names of the templates that were built on. -/
  bases : List String
  /-- Whether the surrounding template no longer prints. -/
  muted : Bool

/-- Prints, unless nothing is to be printed any more. -/
def Scene.emit (scene : Scene) (s : String) : Scene :=
  if scene.muted || scene.base?.isSome then scene else { scene with printed := scene.printed ++ s }

/-- Sets a variable. -/
def Scene.assign (scene : Scene) (name : String) (operand : Operand) : Scene :=
  { scene with around := scene.around.assign name operand }

/-- Evaluates a row of statements of another template or part. -/
abbrev Visit := List Stmt → Scene → Evaluated Scene

/-- The text of an operand that is printed. -/
def printable (line : Nat) : Operand → Evaluated String
  | .undefined false => atLine line (.error .undefined)
  | operand => .ok operand.printed

/-- What a loop tells its statements about itself. -/
def loopValue (index count : Nat) : Value :=
  .object (Fields.ofList [
    ("index", .int (index + 1)), ("index0", .int index),
    ("first", .bool (index = 0)), ("last", .bool (index + 1 = count)),
    ("length", .int count), ("revindex", .int (count - index)),
    ("revindex0", .int ((count - index : Nat) - 1))])

/-- The variables that a loop sets for one item: the item itself, or its parts. -/
def targetScope (line : Nat) (targets : List String) (item : Value) : Evaluated Scope :=
  match targets with
  | [name] => .ok [(name, .value item)]
  | names =>
    match item with
    | .list parts =>
      if parts.length = names.length then .ok (names.zip (parts.map .value))
      else
        atLine line (.error ⟨"cannot unpack",
          s!"sequence of wrong length (expected {names.length}, got {parts.length})"⟩)
    | _ => atLine line (.error ⟨"cannot unpack", "value is not iterable"⟩)

/-- The items for which the test of a loop holds. -/
def passing (s : Surroundings) (line : Nat) (targets : List String) (test : Expr) :
    List Value → Evaluated (List Value)
  | [] => .ok []
  | item :: rest => do
    let scope ← targetScope line targets item
    let holds ← atLine test.lastLine (← eval (s.enter scope) test).isTrue
    let others ← passing s line targets test rest
    return if holds then item :: others else others

/-- The names of the templates that an operand asks for: one, or the first of several that there
is. -/
def wantedNames : Operand → List Operand
  | .value (.list items) => items.map .value
  | operand => [operand]

/-- The first template of these names that there is, or the names that were tried. -/
def firstLoaded (load : Loader) (line : Nat) : List Operand → Evaluated (Option (String × List Stmt))
  | [] => .ok none
  | .value (.str name) :: rest =>
    match load name with
    | .source s => do return some (name, ← read s)
    | .unreadable => atLine line (.error (.invalid s!"could not read template `{name}`"))
    | .missing => firstLoaded load line rest
  | _ :: _ => atLine line (.error (.invalid "template name was not a string"))

/-- No template of any of these names was found. -/
def noneLoaded (line : Nat) (names : List Operand) : TemplateError :=
  let message := match names with
    | [.value v] => s!"tried to include non-existing template {inner v}"
    | names =>
      "tried to include one of multiple templates, none of which existed "
        ++ inner (listOf names)
  { kind := "template not found", message, line := some line }

/-- Evaluates another template in this place. It has replaceable parts of its own. -/
def embed (load : Loader) (visit : Visit) (line : Nat) (names : List Operand)
    (ignoreMissing : Bool) (scene : Scene) : Evaluated Scene := do
  match ← firstLoaded load line names with
  | none => if ignoreMissing then return scene else .error (noneLoaded line names)
  | some (name, stmts) =>
    let muted := scene.muted || scene.base?.isSome
    let start := { scene with blocks := blocksOf stmts, base? := none, muted }
    match visit stmts start with
    | .ok finish => return { scene with printed := finish.printed, around := finish.around }
    | .error _ =>
      .error { kind := "could not render include", message := s!"error in \"{name}\"",
               line := some line }

/-- Notes the template that this one is built on. Its parts stand behind those already there. -/
def extend (load : Loader) (line : Nat) (operand : Operand) (scene : Scene) : Evaluated Scene := do
  if scene.base?.isSome then
    atLine line (.error (.invalid "tried to extend a second time in a template"))
  else
    match operand with
    | .value (.str name) =>
      if scene.bases.contains name then
        atLine line (.error (.invalid
          s!"cycle in template inheritance. {quoteString name} was referenced more than once"))
      else
        match load name with
        | .source s => do
          let stmts ← read s
          return { scene with
            base? := some stmts, bases := name :: scene.bases
            blocks := scene.blocks ++ blocksOf stmts }
        | .unreadable => atLine line (.error (.invalid s!"could not read template `{name}`"))
        | .missing =>
          .error { kind := "template not found",
                   message := s!"template {quoteString name} does not exist", line := some line }
    | _ => atLine line (.error (.invalid "template name was not a string"))

mutual

/-- Evaluates a statement. -/
def run (load : Loader) (visit : Visit) (scene : Scene) : Stmt → Evaluated Scene
  | .text s => .ok (scene.emit s)
  | .print e => do return scene.emit (← printable e.lastLine (← eval scene.around e))
  | .assign name e => do return scene.assign name (← eval scene.around e)
  | .cond test yes no => do
    if ← atLine test.lastLine (← eval scene.around test).isTrue then runAll load visit scene yes
    else runAll load visit scene no
  | .loop targets items test body otherwise => do
    let line := items.lastLine
    let all ← atLine line (itemsOf (← eval scene.around items))
    let chosen ← match test with
      | none => pure all
      | some test => passing scene.around line targets test all
    if chosen.isEmpty then runAll load visit scene otherwise
    else
      let count := chosen.length
      let start := { scene with around := scene.around.enter [] }
      let finish ← chosen.zipIdx.foldlM (fun (scene : Scene) (item, index) => do
        let scope ← targetScope line targets item
        let scene := scope.foldl (fun (scene : Scene) (name, v) => scene.assign name v)
          (scene.assign "loop" (.value (loopValue index count)))
        runAll load visit scene body) start
      return { finish with around := finish.around.leave }
  | .block name body =>
    if scene.base?.isSome || scene.muted then .ok scene
    else
      let body := (scene.blocks.lookup name).getD body
      do
        let finish ← visit body { scene with around := scene.around.enter [] }
        return { finish with around := finish.around.leave }
  | .extend e => do extend load e.lastLine (← eval scene.around e) scene
  | .embed e ignoreMissing => do
    embed load visit e.lastLine (wantedNames (← eval scene.around e)) ignoreMissing scene

/-- Evaluates a row of statements. -/
def runAll (load : Loader) (visit : Visit) (scene : Scene) : List Stmt → Evaluated Scene
  | [] => .ok scene
  | s :: rest => do runAll load visit (← run load visit scene s) rest

end

/-- Evaluates a row of statements and then the template it turned out to be built on, with a number
of levels allowed beneath it. -/
def runTemplate (load : Loader) : (levels : Nat) → Visit
  | 0, _, _ => .error { kind := "invalid operation", message := "recursion limit exceeded" }
  | levels + 1, stmts, scene => do
    let scene ← runAll load (runTemplate load levels) scene stmts
    match scene.base? with
    | none => return scene
    | some base => runTemplate load levels base { scene with base? := none }

/-- How many templates and parts may be nested. -/
def maxLevels : Nat := 50

/-- Renders a template. -/
def render (load : Loader) (globals context : Context) (source : String) : Evaluated String := do
  let stmts ← read source
  let scene ← runTemplate load maxLevels stmts
    { printed := "", around := { scopes := [[]], context, globals }, blocks := blocksOf stmts
      base? := none, bases := [], muted := false }
  return scene.printed

end Regen.Template
