import Regen.Toml.Quoted
import Regen.Toml.Scalar
import Regen.Toml.Tree

/-!
# Reading TOML

A document is a sequence of lines with keys and values and of headers. The reader answers with the
root table, or with nothing if the text is no TOML.
-/

namespace Regen.Toml

open Quoted (Reader isControl)

/-- Drops spaces and tabs. -/
def dropBlanks (cs : List Char) : List Char := cs.dropWhile fun c => c = ' ' || c = '\t'

/-- Drops blanks, line ends and comments, from inside a comment or not. -/
def dropTrivia (inComment : Bool) : List Char → Option (List Char)
  | [] => some []
  | c :: cs =>
    if c = '\n' then dropTrivia false cs
    else if c = '\r' then if cs.head? = some '\n' then dropTrivia inComment cs else none
    else if inComment then if isControl c then none else dropTrivia true cs
    else if c = ' ' || c = '\t' then dropTrivia false cs
    else if c = '#' then dropTrivia true cs
    else some (c :: cs)

/-- Drops what may follow on a line, a comment at most, and the line end. -/
def dropLine (cs : List Char) : Option (List Char) :=
  match dropBlanks cs with
  | [] => some []
  | '\n' :: rest => some rest
  | '\r' :: '\n' :: rest => some rest
  | '#' :: rest =>
    let comment := rest.takeWhile (· != '\n')
    let comment := if comment.getLast? = some '\r' then comment.dropLast else comment
    if comment.any isControl then none else some ((rest.dropWhile (· != '\n')).drop 1)
  | _ => none

/-- Whether a character can be part of an unquoted key. -/
def isKeyChar (c : Char) : Bool := c.isAlphanum || c = '_' || c = '-'

/-- A key without dots. -/
def simpleKey : Reader String := fun cs =>
  match cs with
  | '"' :: _ | '\'' :: _ => Quoted.oneLine cs
  | _ =>
    let key := cs.takeWhile isKeyChar
    if key.isEmpty then none else some (String.ofList key, cs.dropWhile isKeyChar)

/-- A key of keys with dots between them, and the blanks around it. Every step takes at least a
character. -/
def dottedKey : (steps : Nat) → Reader (List String)
  | 0, _ => none
  | steps + 1, cs => do
    let (key, cs) ← simpleKey (dropBlanks cs)
    match dropBlanks cs with
    | '.' :: rest => do
      let (keys, rest) ← dottedKey steps rest
      return (key :: keys, rest)
    | rest => return ([key], rest)

mutual

/-- A value. The number of steps bounds how deeply values are nested and how many there are in
a row; each of them takes a character, so the length of the input is enough. -/
def value : (steps : Nat) → Reader Value
  | 0, _ => none
  | steps + 1, cs =>
    match cs with
    | '"' :: _ | '\'' :: _ => (Quoted.string cs).map fun (s, rest) => (.str s, rest)
    | '[' :: rest => (items steps rest).map fun (vs, rest) => (.array vs, rest)
    | '{' :: rest => do
      let (fields, rest) ← fields steps [] rest
      return (.table (sortFields (finishFields fields)), rest)
    | _ =>
      let (token, rest) := splitScalar cs
      (scalar? token).map (·, rest)

/-- The items of an array from behind its bracket, or from behind a comma, on. -/
def items : (steps : Nat) → Reader (List Value)
  | 0, _ => none
  | steps + 1, cs => do
    match ← dropTrivia false cs with
    | ']' :: rest => return ([], rest)
    | cs => do
      let (v, cs) ← value steps cs
      match ← dropTrivia false cs with
      | ',' :: rest => do
        let (vs, rest) ← items steps rest
        return (v :: vs, rest)
      | ']' :: rest => return ([v], rest)
      | _ => none

/-- The fields of an inline table from behind its brace, or from behind a comma, on. -/
def fields : (steps : Nat) → Node.Fields → Reader Node.Fields
  | 0, _, _ => none
  | steps + 1, known, cs => do
    match ← dropTrivia false cs with
    | '}' :: rest => return (known, rest)
    | cs => do
      let (path, cs) ← dottedKey steps cs
      match cs with
      | '=' :: cs => do
        let (v, cs) ← value steps (dropBlanks cs)
        let known ← known.addValue v path
        match ← dropTrivia false cs with
        | ',' :: rest => fields steps known rest
        | '}' :: rest => return (known, rest)
        | _ => none
      | _ => none

end

/-- A document being read: the root, and the path of the header that was read last. -/
structure Draft where
  /-- The fields of the root table. -/
  root : Node.Fields
  /-- Where keys are added. -/
  path : List String

/-- One header or one key with its value. -/
def line (steps : Nat) (d : Draft) (cs : List Char) : Option (Draft × List Char) :=
  match cs with
  | '[' :: '[' :: cs => do
    let (path, cs) ← dottedKey steps cs
    match cs with
    | ']' :: ']' :: cs => do
      return ({ root := ← d.root.openElement path, path }, ← dropLine cs)
    | _ => none
  | '[' :: cs => do
    let (path, cs) ← dottedKey steps cs
    match cs with
    | ']' :: cs => do return ({ root := ← d.root.openTable path, path }, ← dropLine cs)
    | _ => none
  | _ => do
    let (path, cs) ← dottedKey steps cs
    match cs with
    | '=' :: cs => do
      let (v, cs) ← value steps (dropBlanks cs)
      let root ← Node.Fields.descend (Node.Fields.addValue v path) d.path d.root
      return ({ d with root }, ← dropLine cs)
    | _ => none

/-- The lines of a document. -/
def linesFrom : (steps : Nat) → Draft → List Char → Option Draft
  | 0, _, _ => none
  | steps + 1, d, cs => do
    match ← dropTrivia false cs with
    | [] => return d
    | cs => do
      let (d, rest) ← line (cs.length + 1) d cs
      linesFrom steps d rest

/-- The root table of a document, if the text is one. A byte order mark in front of it is
ignored. -/
def read? (s : String) : Option Table :=
  let cs := s.toList
  let cs := if cs.head? = some '\ufeff' then cs.drop 1 else cs
  (linesFrom (cs.length + 1) ⟨[], []⟩ cs).map fun d => sortFields (finishFields d.root)

end Regen.Toml
