import Regen.Value

/-!
# The grammar of templates

Expressions and statements. Each leaf of an expression keeps its line, since errors are reported at
the leaf that was looked at last.
-/

namespace Regen.Template

/-- An operator with two operands that are both evaluated. -/
inductive BinaryOp where
  /-- Sum, or two strings or lists behind each other. -/
  | add
  /-- Difference. -/
  | sub
  /-- Product, or a string or list repeated. -/
  | mul
  /-- Quotient in floating point. -/
  | div
  /-- Quotient rounded so that the remainder is not negative. -/
  | floorDiv
  /-- Remainder, which is not negative. -/
  | rem
  /-- The printed forms behind each other. -/
  | concat
  /-- Equality. -/
  | eq
  /-- Inequality. -/
  | ne
  /-- Smaller. -/
  | lt
  /-- Smaller or equal. -/
  | le
  /-- Greater. -/
  | gt
  /-- Greater or equal. -/
  | ge
  /-- Being part of a string, a list or the keys of an object. -/
  | elem
  deriving DecidableEq

/-- An expression. -/
inductive Expr where
  /-- A literal. -/
  | const (line : Nat) (v : Value)
  /-- A variable. -/
  | var (line : Nat) (name : String)
  /-- A list. -/
  | list (line : Nat) (items : List Expr)
  /-- The value of a key that is written as a name. -/
  | attr (e : Expr) (name : String)
  /-- The value of a key or at a position. -/
  | item (e index : Expr)
  /-- The negative of a number. -/
  | neg (e : Expr)
  /-- The opposite of a truth value. -/
  | not (e : Expr)
  /-- An operator between two operands. -/
  | binary (op : BinaryOp) (left right : Expr)
  /-- The first operand if it is false, or else the second. -/
  | both (left right : Expr)
  /-- The first operand if it is true, or else the second. -/
  | either (left right : Expr)
  /-- One of two expressions. Without the second, there is nothing if the test fails. -/
  | cond (test yes : Expr) (no : Option Expr)
  /-- A filter. -/
  | filter (name : String) (e : Expr) (args : List Expr)
  /-- A test of the form `is`. -/
  | check (name : String) (e : Expr)
  /-- A function call. -/
  | call (line : Nat) (name : String) (args : List Expr)

mutual

/-- The line of the leaf of an expression that is looked at last. -/
def Expr.lastLine : Expr → Nat
  | .const line _ => line
  | .var line _ => line
  | .list line items => lastLineOf items line
  | .attr e _ => e.lastLine
  | .item _ index => index.lastLine
  | .neg e => e.lastLine
  | .not e => e.lastLine
  | .binary _ _ right => right.lastLine
  | .both _ right => right.lastLine
  | .either _ right => right.lastLine
  | .cond _ yes none => yes.lastLine
  | .cond _ _ (some no) => no.lastLine
  | .filter _ e args => lastLineOf args e.lastLine
  | .check _ e => e.lastLine
  | .call line _ args => lastLineOf args line

/-- The line of the last leaf of a row of expressions, or the given line if there is none. -/
def lastLineOf : List Expr → Nat → Nat
  | [], line => line
  | e :: rest, _ => lastLineOf rest e.lastLine

end

/-- A statement. -/
inductive Stmt where
  /-- Text to print as it is. -/
  | text (s : String)
  /-- A value to print. -/
  | print (e : Expr)
  /-- One of two rows of statements. -/
  | cond (test : Expr) (yes no : List Stmt)
  /-- Statements for each item, or others if there is no item. Only items that pass the test are
  counted. -/
  | loop (targets : List String) (items : Expr) (test : Option Expr) (body otherwise : List Stmt)
  /-- A variable that is set. -/
  | assign (name : String) (e : Expr)
  /-- A part that templates built on this one can replace. -/
  | block (name : String) (body : List Stmt)
  /-- The template that this one is built on. -/
  | extend (e : Expr)
  /-- Another template in this place. -/
  | embed (e : Expr) (ignoreMissing : Bool)

mutual

/-- The parts of a statement that can be replaced, by name. -/
def Stmt.blocks : Stmt → List (String × List Stmt)
  | .block name body => (name, body) :: blocksOf body
  | .cond _ yes no => blocksOf yes ++ blocksOf no
  | .loop _ _ _ body otherwise => blocksOf body ++ blocksOf otherwise
  | .text _ | .print _ | .assign _ _ | .extend _ | .embed _ _ => []

/-- The parts of a row of statements that can be replaced, by name. -/
def blocksOf : List Stmt → List (String × List Stmt)
  | [] => []
  | s :: rest => s.blocks ++ blocksOf rest

end

end Regen.Template
