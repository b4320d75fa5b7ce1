import Regen.Number.Digits

/-!
# Quoted strings

The four kinds of strings, all read from behind their opening quotes: with and without escapes,
on one line and on several.
-/

namespace Regen.Toml.Quoted

/-- A reader takes what it reads off the front of the input, or fails. -/
abbrev Reader (α : Type) := List Char → Option (α × List Char)

/-- A control character, which may not stand in a text as itself. The tab may. -/
def isControl (c : Char) : Bool := (c.toNat < 32 && c != '\t') || c.toNat = 127

/-- A character given by its number in hexadecimal digits. -/
def numbered (width : Nat) : Reader Char := fun cs => do
  let digits := cs.take width
  guard (digits.length = width)
  let n ← Digits.read? 16 digits
  guard n.isValidChar
  return (Char.ofNat n, cs.drop width)

/-- The character of an escape, read from behind the backslash. -/
def escaped : Reader Char
  | 'b' :: cs => some ('\x08', cs)
  | 't' :: cs => some ('\t', cs)
  | 'n' :: cs => some ('\n', cs)
  | 'f' :: cs => some ('\x0c', cs)
  | 'r' :: cs => some ('\r', cs)
  | 'e' :: cs => some ('\x1b', cs)
  | '"' :: cs => some ('"', cs)
  | '\\' :: cs => some ('\\', cs)
  | 'x' :: cs => numbered 2 cs
  | 'u' :: cs => numbered 4 cs
  | 'U' :: cs => numbered 8 cs
  | _ => none

/-- The rest of a string on one line with escapes. Every step takes a character, so the length
of the input is enough steps; so it is for the readers below. -/
def basic : (steps : Nat) → Reader (List Char)
  | 0, _ => none
  | _, [] => none
  | steps + 1, c :: cs =>
    if c = '"' then some ([], cs)
    else if c = '\\' then do
      let (d, cs) ← escaped cs
      let (s, cs) ← basic steps cs
      return (d :: s, cs)
    else if isControl c then none
    else do
      let (s, cs) ← basic steps cs
      return (c :: s, cs)

/-- The rest of a string on one line without escapes. -/
def literal : Reader (List Char)
  | [] => none
  | c :: cs =>
    if c = '\'' then some ([], cs)
    else if isControl c then none
    else do
      let (s, cs) ← literal cs
      return (c :: s, cs)

/-- Drops one line end, if there is one. -/
def dropLineEnd : List Char → List Char
  | '\n' :: cs => cs
  | '\r' :: '\n' :: cs => cs
  | cs => cs

/-- Whether blanks and a line end follow, as they have to behind a backslash that ends a line. -/
def endsLine (cs : List Char) : Bool :=
  match cs.dropWhile fun c => c = ' ' || c = '\t' with
  | '\n' :: _ => true
  | '\r' :: '\n' :: _ => true
  | _ => false

/-- How many of these quotes end the string and belong to it, where the closing three come last:
three to five quotes close a string on several lines, and all but three of them are its own. -/
def closing (quote : Char) (cs : List Char) : Option (Nat × List Char) :=
  let run := (cs.takeWhile (· = quote)).length
  if run < 3 then none
  else
    let own := min (run - 3) 2
    some (own, cs.drop (own + 3))

/-- The rest of a string on several lines, with escapes or without. -/
def several (quote : Char) (escapes : Bool) : (steps : Nat) → Reader (List Char)
  | 0, _ => none
  | _, [] => none
  | steps + 1, c :: cs =>
    match closing quote (c :: cs) with
    | some (own, rest) => some (List.replicate own quote, rest)
    | none =>
      if escapes && c = '\\' then
        if endsLine cs then
          several quote escapes steps
            (cs.dropWhile fun d => d = ' ' || d = '\t' || d = '\n' || d = '\r')
        else do
          let (d, cs) ← escaped cs
          let (s, cs) ← several quote escapes steps cs
          return (d :: s, cs)
      else if c = '\r' then
        match cs with
        | '\n' :: cs => do
          let (s, cs) ← several quote escapes steps cs
          return ('\n' :: s, cs)
        | _ => none
      else if isControl c && c != '\n' then none
      else do
        let (s, cs) ← several quote escapes steps cs
        return (c :: s, cs)

/-- A string on one line, from its opening quote on. It may not begin as one on several lines
does. -/
def oneLine : Reader String
  | '"' :: cs => (basic (cs.length + 1) cs).map fun (s, rest) => (String.ofList s, rest)
  | '\'' :: cs => (literal cs).map fun (s, rest) => (String.ofList s, rest)
  | _ => none

/-- Any string, from its opening quotes on. A line end just behind three quotes is dropped. -/
def string : Reader String
  | '"' :: '"' :: '"' :: cs =>
    let cs := dropLineEnd cs
    (several '"' true (cs.length + 1) cs).map fun (s, rest) => (String.ofList s, rest)
  | '\'' :: '\'' :: '\'' :: cs =>
    let cs := dropLineEnd cs
    (several '\'' false (cs.length + 1) cs).map fun (s, rest) => (String.ofList s, rest)
  | cs => oneLine cs

end Regen.Toml.Quoted
