import Regen.Fault
import Regen.Template.Grammar
import Regen.Template.Token

/-!
# Reading templates

The reader of the grammar works on tokens. An error is reported at the line of the token taken
last, and a flaw in the text when it is come upon.
-/

namespace Regen.Template

/-- The tokens ahead, and the line of the one taken last. -/
structure Stream where
  /-- The tokens ahead, each with its line. -/
  ahead : List (Token × Nat)
  /-- The line of the token taken last. -/
  line : Nat

/-- A computation that takes tokens. -/
abbrev Parse := StateT Stream (Except TemplateError)

namespace Parse

/-- Fails at the line of the token taken last. -/
def fails {α : Type} (message : String) : Parse α := do
  let s ← get
  throw { kind := "syntax error", message, line := some s.line }

/-- Fails because of a token where another was expected. -/
def unexpected {α : Type} (token? : Option Token) (expected : String) : Parse α :=
  match token? with
  | some token => fails s!"unexpected {token.label}, expected {expected}"
  | none => fails s!"unexpected end of input, expected {expected}"

/-- The next token, which is not taken. -/
def peek : Parse (Option Token) := do
  match (← get).ahead with
  | [] => return none
  | (.flaw kind message, line) :: _ => throw { kind, message, line := some line }
  | (token, _) :: _ => return some token

/-- Takes the next token. -/
def next : Parse (Option Token) := do
  let token? ← peek
  modify fun s => match s.ahead with
    | [] => s
    | (_, line) :: rest => ⟨rest, line⟩
  return token?

/-- The line of the next token. -/
def nextLine : Parse Nat := do
  let s ← get
  return match s.ahead with
    | [] => s.line
    | (_, line) :: _ => line

/-- Whether the next token is this operator or bracket. -/
def atSign (sign : String) : Parse Bool := do
  match ← peek with
  | some (.sign s) => return s == sign
  | _ => return false

/-- Whether the next token is this word. -/
def atWord (word : String) : Parse Bool := do
  match ← peek with
  | some (.ident s) => return s == word
  | _ => return false

/-- Takes this operator or bracket, if it is next. -/
def skipSign (sign : String) : Parse Bool := do
  let found ← atSign sign
  if found then discard next
  return found

/-- Takes this word, if it is next. -/
def skipWord (word : String) : Parse Bool := do
  let found ← atWord word
  if found then discard next
  return found

/-- Takes this operator or bracket, which has to be next. -/
def expectSign (sign : String) : Parse Unit := do
  match ← next with
  | some (.sign s) => if s = sign then return else unexpected (some (.sign s)) s!"`{sign}`"
  | token? => unexpected token? s!"`{sign}`"

/-- Takes a name. -/
def expectIdent : Parse String := do
  match ← next with
  | some (.ident s) => return s
  | token? => unexpected token? "identifier"

/-- Takes this word, which has to be next. -/
def expectWord (word expected : String) : Parse Unit := do
  match ← next with
  | some (.ident s) => if s = word then return else unexpected (some (.ident s)) expected
  | token? => unexpected token? expected

/-- Takes the end of a statement. -/
def expectBlockEnd : Parse Unit := do
  match ← next with
  | some .blockEnd => return
  | token? => unexpected token? "end of block"

/-- Takes the end of an expression to print. -/
def expectVariableEnd : Parse Unit := do
  match ← next with
  | some .variableEnd => return
  | token? => unexpected token? "end of variable block"

end Parse

open Parse

/-- The operator of a sign that compares. -/
def comparison? : String → Option BinaryOp
  | "==" => some .eq
  | "!=" => some .ne
  | "<" => some .lt
  | "<=" => some .le
  | ">" => some .gt
  | ">=" => some .ge
  | _ => none

/-- The operator of a sign that adds. -/
def additive? : String → Option BinaryOp
  | "+" => some .add
  | "-" => some .sub
  | _ => none

/-- The operator of a sign that multiplies. -/
def multiplicative? : String → Option BinaryOp
  | "*" => some .mul
  | "/" => some .div
  | "//" => some .floorDiv
  | "%" => some .rem
  | _ => none

/-- The operator of a sign that concatenates. -/
def concatenation? : String → Option BinaryOp
  | "~" => some .concat
  | _ => none

/-- Operands with operators of one kind between them, taken from the left. -/
def operatorRow (op? : String → Option BinaryOp) (operand : Parse Expr) :
    (steps : Nat) → Expr → Parse Expr
  | 0, left => return left
  | steps + 1, left => do
    match ← peek with
    | some (.sign s) =>
      match op? s with
      | some op => do
        discard next
        operatorRow op? operand steps (.binary op left (← operand))
      | none => return left
    | _ => return left

/-- Comparisons and tests of membership, taken from the left. -/
def comparisonRow (operand : Parse Expr) : (steps : Nat) → Expr → Parse Expr
  | 0, left => return left
  | steps + 1, left => do
    match ← peek with
    | some (.sign s) =>
      match comparison? s with
      | some op => do
        discard next
        comparisonRow operand steps (.binary op left (← operand))
      | none => return left
    | some (.ident "in") => do
      discard next
      comparisonRow operand steps (.binary .elem left (← operand))
    | some (.ident "not") => do
      discard next
      expectWord "in" "in"
      comparisonRow operand steps (.not (.binary .elem left (← operand)))
    | _ => return left

/-- Operands with one word between them, taken from the left. -/
def wordRow (word : String) (join : Expr → Expr → Expr) (operand : Parse Expr) :
    (steps : Nat) → Expr → Parse Expr
  | 0, left => return left
  | steps + 1, left => do
    if ← skipWord word then wordRow word join operand steps (join left (← operand))
    else return left

/-- Any number of minus signs in front of an operand. -/
def negations (operand : Parse Expr) : (steps : Nat) → Parse Expr
  | 0 => operand
  | steps + 1 => do
    if ← skipSign "-" then return .neg (← negations operand steps) else operand

/-- Any number of the word `not` in front of an operand. -/
def inversions (operand : Parse Expr) : (steps : Nat) → Parse Expr
  | 0 => operand
  | steps + 1 => do
    if ← skipWord "not" then return .not (← inversions operand steps) else operand

/-- Expressions with commas between them, up to a closing bracket, where a comma may come last. -/
def commaList (close : String) (operand : Parse Expr) : (steps : Nat) → List Expr →
    Parse (List Expr)
  | 0, read => return read.reverse
  | steps + 1, read => do
    if ← skipSign close then return read.reverse
    else do
      if !read.isEmpty then do
        expectSign ","
        if ← skipSign close then return read.reverse
        else commaList close operand steps ((← operand) :: read)
      else commaList close operand steps ((← operand) :: read)

/-- What follows an operand: attributes, positions and calls. -/
def postfixRow (whole : Parse Expr) : (steps : Nat) → Expr → Parse Expr
  | 0, e => return e
  | steps + 1, e => do
    match ← peek with
    | some (.sign ".") => do
      discard next
      postfixRow whole steps (.attr e (← expectIdent))
    | some (.sign "[") => do
      discard next
      let index ← whole
      expectSign "]"
      postfixRow whole steps (.item e index)
    | some (.sign "(") =>
      match e with
      | .var line name => do
        discard next
        let args ← commaList ")" whole steps []
        postfixRow whole steps (.call line name args)
      | _ => fails "only functions can be called"
    | _ => return e

/-- What follows an operand with its attributes: filters and tests. -/
def filterRow (whole : Parse Expr) : (steps : Nat) → Expr → Parse Expr
  | 0, e => return e
  | steps + 1, e => do
    match ← peek with
    | some (.sign "|") => do
      discard next
      let name ← expectIdent
      let args ← if ← skipSign "(" then commaList ")" whole steps [] else pure []
      filterRow whole steps (.filter name e args)
    | some (.ident "is") => do
      discard next
      let negated ← skipWord "not"
      let test := .check (← expectIdent) e
      filterRow whole steps (if negated then .not test else test)
    | _ => return e

/-- A literal, a variable or an expression in brackets. -/
def primary (whole : Parse Expr) (steps : Nat) : Parse Expr := do
  match ← next with
  | none => unexpected none "expression"
  | some token => do
    let line := (← get).line
    match token with
    | .ident s =>
      if s = "true" || s = "True" then return .const line (.bool true)
      else if s = "false" || s = "False" then return .const line (.bool false)
      else if s = "none" || s = "None" then return .const line .null
      else return .var line s
    | .str s => return .const line (.str s)
    | .int n => return .const line (.int n)
    | .float x => return .const line (.float x)
    | .sign "(" => do
      let e ← whole
      expectSign ")"
      return e
    | .sign "[" => return .list line (← commaList "]" whole steps [])
    | token => fails s!"unexpected {token.label}"

/-- An operand with all that binds to it more closely than any operator between operands. -/
def operand (whole : Parse Expr) (steps : Nat) : Parse Expr := do
  let e ← negations (primary whole steps) steps
  let e ← postfixRow whole steps e
  filterRow whole steps e

/-- An expression without a choice in it, outside of brackets. -/
def choiceless (whole : Parse Expr) (steps : Nat) : Parse Expr := do
  let row (op? : String → Option BinaryOp) (operand : Parse Expr) : Parse Expr := do
    operatorRow op? operand steps (← operand)
  let product := row multiplicative? (operand whole steps)
  let joined := row concatenation? product
  let sum := row additive? joined
  let comparison := do comparisonRow sum steps (← sum)
  let inverted := inversions comparison steps
  let both := do wordRow "and" .both inverted steps (← inverted)
  wordRow "or" .either both steps (← both)

/-- The choices that follow an expression. -/
def choiceRow (whole : Parse Expr) (steps : Nat) : (choices : Nat) → Expr → Parse Expr
  | 0, e => return e
  | choices + 1, e => do
    if ← skipWord "if" then do
      let test ← choiceless whole steps
      let no? ← if ← skipWord "else" then some <$> whole else pure none
      choiceRow whole steps choices (.cond test e no?)
    else return e

/-- An expression, with brackets nested at most `depth` deep and rows of at most `steps`
operands. -/
def expr (steps : Nat) : (depth : Nat) → Parse Expr
  | 0 => fails "template exceeds maximum recursion limits"
  | depth + 1 => do
    let whole := expr steps depth
    choiceRow whole steps steps (← choiceless whole steps)

/-- The variables a loop or an assignment may not set. -/
def reserved : List String := ["true", "True", "false", "False", "none", "None", "loop", "self"]

/-- Takes the name of a variable that can be set. -/
def targetName : Parse String := do
  let name ← expectIdent
  if reserved.contains name then fails s!"cannot assign to reserved variable name {name}"
  else return name

/-- Takes the names of the variables that a loop sets. -/
def targetNames : (steps : Nat) → Parse (List String)
  | 0 => return []
  | steps + 1 => do
    let name ← targetName
    if ← skipSign "," then return name :: (← targetNames steps) else return [name]

/-- How many brackets may be nested. -/
def maxBrackets : Nat := 150

/-- Any expression. -/
def wholeExpr (steps : Nat) : Parse Expr := expr steps maxBrackets

/-- A row of statements, up to the end or to a statement that begins with one of these words. The
start of the latter is taken. `body` reads the rest of a statement from behind its word on. -/
def rowOf (body : String → Parse Stmt) (exprSteps : Nat) (ends : List String) :
    (steps : Nat) → Parse (List Stmt)
  | 0 => return []
  | steps + 1 => do
    match ← next with
    | none => return []
    | some (.text s) => return .text s :: (← rowOf body exprSteps ends steps)
    | some .variableStart => do
      let e ← wholeExpr exprSteps
      expectVariableEnd
      return .print e :: (← rowOf body exprSteps ends steps)
    | some .blockStart => do
      match ← peek with
      | none => unexpected none "keyword"
      | some token => do
        let atEnd := match token with
          | .ident word => ends.contains word
          | _ => false
        if atEnd then return []
        else do
          match ← next with
          | some (.ident word) => do
            let s ← body word
            expectBlockEnd
            return s :: (← rowOf body exprSteps ends steps)
          | token? => unexpected token? "statement"
    | some token => fails s!"unexpected {token.label}"

/-- The rest of a condition, from behind its first word on. Of the parts after it, each is another
condition or the last. -/
def conditionRest (row : List String → Parse (List Stmt)) (exprSteps : Nat) :
    (steps : Nat) → Parse Stmt
  | 0 => fails "template exceeds maximum recursion limits"
  | steps + 1 => do
    let test ← wholeExpr exprSteps
    expectBlockEnd
    let yes ← row ["endif", "else", "elif"]
    match ← next with
    | some (.ident "else") => do
      expectBlockEnd
      let no ← row ["endif"]
      discard next
      return .cond test yes no
    | some (.ident "elif") => return .cond test yes [← conditionRest row exprSteps steps]
    | _ => return .cond test yes []

/-- The rest of a loop, from behind its first word on. -/
def loopRest (row : List String → Parse (List Stmt)) (exprSteps : Nat) : Parse Stmt := do
  let targets ← targetNames exprSteps
  expectWord "in" "in"
  let items ← choiceless (wholeExpr exprSteps) exprSteps
  let test ← if ← skipWord "if" then some <$> wholeExpr exprSteps else pure none
  expectBlockEnd
  let body ← row ["endfor", "else"]
  let otherwise ← if ← skipWord "else" then do
      expectBlockEnd
      row ["endfor"]
    else pure []
  discard next
  return .loop targets items test body otherwise

/-- The rest of a part that can be replaced, from behind its first word on. Its name may be
repeated at its end. -/
def blockRest (row : List String → Parse (List Stmt)) : Parse Stmt := do
  let name ← expectIdent
  expectBlockEnd
  let body ← row ["endblock"]
  discard next
  match ← peek with
  | some (.ident trailing) =>
    if trailing = name then do
      discard next
      return .block name body
    else
      fails s!"mismatching name on block. Got `{trailing}`, expected `{name}`"
  | _ => return .block name body

/-- The rest of a statement, from behind its first word on, where statements may be nested at most
`depth` deep. -/
def stmtRest (steps : Nat) : (depth : Nat) → String → Parse Stmt
  | 0, _ => fails "template exceeds maximum recursion limits"
  | depth + 1, word => do
    let row (ends : List String) := rowOf (stmtRest steps depth) steps ends steps
    match word with
    | "if" => conditionRest row steps steps
    | "for" => loopRest row steps
    | "block" => blockRest row
    | "set" => do
      let name ← targetName
      match ← next with
      | some (.sign "=") => return .assign name (← wholeExpr steps)
      | token? => unexpected token? "assignment operator"
    | "include" => do
      let e ← wholeExpr steps
      if ← skipWord "ignore" then do
        expectWord "missing" "missing keyword"
        return .embed e true
      else return .embed e false
    | "extends" => return .extend (← wholeExpr steps)
    | word => fails s!"unknown statement {word}"

/-- The first name that stands for two parts of one template. -/
def repeatedBlock? : List String → Option String
  | [] => none
  | name :: rest => if rest.contains name then some name else repeatedBlock? rest

/-- Reads a template. Every row and every nesting takes tokens, so their number bounds both. -/
def read (source : String) : Except TemplateError (List Stmt) := do
  let ts := tokens source
  let steps := ts.length + 2
  let whole := rowOf (stmtRest steps steps) steps [] steps
  let (stmts, s) ← whole.run ⟨ts, 1⟩
  match repeatedBlock? ((blocksOf stmts).map (·.1)) with
  | some name =>
    .error { kind := "syntax error", message := s!"block '{name}' defined twice",
             line := some s.line }
  | none => return stmts

end Regen.Template
