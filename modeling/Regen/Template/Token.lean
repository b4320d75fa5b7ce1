import Regen.Number.Digits
import Regen.Text.Trim

/-!
# Tokens of templates

A template is text with tags in it: `{{` begins an expression to print, `{%` a statement and `{#` a
comment. A minus sign next to a tag takes away all white space on that side. Without a
sign, a statement or comment that is alone on its line takes the blanks in front of it and the
line end behind it along.

Reading never fails: where a text cannot be split any further, the tokens end in a flaw, and the
reader of the grammar decides whether it gets that far.
-/

namespace Regen.Template

/-- A token. -/
inductive Token where
  /-- Text outside of tags. -/
  | text (s : String)
  /-- The beginning of an expression to print. -/
  | variableStart
  /-- The end of an expression to print. -/
  | variableEnd
  /-- The beginning of a statement. -/
  | blockStart
  /-- The end of a statement. -/
  | blockEnd
  /-- A name or a keyword. -/
  | ident (s : String)
  /-- A string. -/
  | str (s : String)
  /-- A whole number. -/
  | int (n : Nat)
  /-- A number in floating point. -/
  | float (x : Float)
  /-- An operator or a bracket. -/
  | sign (s : String)
  /-- Text that is no token. -/
  | flaw (kind message : String)

/-- How messages call a token. -/
def Token.label : Token → String
  | .text _ => "template-data"
  | .variableStart => "start of variable block"
  | .variableEnd => "end of variable block"
  | .blockStart => "start of block"
  | .blockEnd => "end of block"
  | .ident _ => "identifier"
  | .str _ => "string"
  | .int _ => "integer"
  | .float _ => "float"
  | .sign s => s!"`{s}`"
  | .flaw _ message => message

/-- A place in a template. -/
structure Cursor where
  /-- What is left of the template. -/
  rest : List Char
  /-- The line, from one. -/
  line : Nat
  /-- Whether nothing but white space stands on the line so far. -/
  lineBlank : Bool

namespace Cursor

/-- The place behind one character. -/
def step (c : Cursor) (ch : Char) : Cursor where
  rest := c.rest.drop 1
  line := if ch = '\n' then c.line + 1 else c.line
  lineBlank := ch = '\n' || ch = '\r' || (c.lineBlank && Text.isWhiteSpace ch)

/-- The place behind a number of characters. -/
def advance (c : Cursor) (n : Nat) : Cursor := (c.rest.take n).foldl step c

/-- The place behind the white space that follows. -/
def skipSpace (c : Cursor) : Cursor := c.advance (c.rest.takeWhile Text.isWhiteSpace).length

/-- The place behind a line end that follows. -/
def skipLineEnd (c : Cursor) : Cursor :=
  match c.rest with
  | '\r' :: '\n' :: _ => c.advance 2
  | '\r' :: _ | '\n' :: _ => c.advance 1
  | _ => c

end Cursor

/-- The three kinds of tags. -/
inductive Tag where
  /-- An expression to print. -/
  | variable
  /-- A statement. -/
  | block
  /-- A comment. -/
  | comment
  deriving DecidableEq

/-- What becomes of the white space next to a tag. -/
inductive Margin where
  /-- Statements and comments take a line of their own along. -/
  | standard
  /-- It stays. -/
  | keep
  /-- All of it goes. -/
  | strip
  deriving DecidableEq

/-- The margin that a sign next to a tag asks for. -/
def Margin.ofChar? : Option Char → Margin
  | some '-' => .strip
  | some '+' => .keep
  | _ => .standard

/-- How many characters a margin is written with. -/
def Margin.width : Margin → Nat
  | .standard => 0
  | .keep | .strip => 1

/-- The first tag and the number of characters in front of it. -/
def findTag? : List Char → Option (Nat × Tag)
  | '{' :: '{' :: _ => some (0, .variable)
  | '{' :: '%' :: _ => some (0, .block)
  | '{' :: '#' :: _ => some (0, .comment)
  | _ :: rest => (findTag? rest).map fun (n, tag) => (n + 1, tag)
  | [] => none

/-- The number of characters in front of the first occurrence of two characters. -/
def findPair? (a b : Char) : List Char → Option Nat
  | c :: rest =>
    if c = a && rest.head? = some b then some 0 else (findPair? a b rest).map (· + 1)
  | [] => none

/-- Text without the characters of a kind at its end. -/
def trimEndWhile (p : Char → Bool) (cs : List Char) : List Char := (cs.reverse.dropWhile p).reverse

/-- White space other than a line end. -/
def isLineSpace (c : Char) : Bool := Text.isWhiteSpace c && c != '\n' && c != '\r'

/-- Text whose last line, if blank, is cut off. -/
def trimLastLine (cs : List Char) : List Char :=
  let kept := trimEndWhile isLineSpace cs
  match kept.getLast? with
  | none => kept
  | some c => if c = '\n' || c = '\r' then kept else cs

/-- ASCII white space, which separates tokens. -/
def isBlank (c : Char) : Bool := c = ' ' || c = '\t' || c = '\n' || c = '\r' || c = '\x0c'

/-- Reads the inside of a statement that consists of one given word, and its end. The answer is
how many characters that took, and the margin behind it. -/
def wordTag? (word : String) (cs : List Char) : Option (Nat × Margin) :=
  let start := cs.dropWhile isBlank
  let name := word.toList
  if name.isPrefixOf start then
    let rest := (start.drop name.length).dropWhile isBlank
    let margin := Margin.ofChar? rest.head?
    match rest.drop margin.width with
    | '%' :: '}' :: after => some (cs.length - after.length, margin)
    | _ => none
  else none

/-- The text up to the statement that ends raw text, the margin in front of that, and what
`wordTag?` says of it, where `before` characters have been passed. -/
def findRawEnd? : (before : Nat) → List Char → Option (Nat × Margin × Nat × Margin)
  | before, '{' :: '%' :: rest =>
    let margin := Margin.ofChar? rest.head?
    match wordTag? "endraw" (rest.drop margin.width) with
    | some (n, after) => some (before, margin, 2 + margin.width + n, after)
    | none => findRawEnd? (before + 1) ('%' :: rest)
  | before, _ :: rest => findRawEnd? (before + 1) rest
  | _, [] => none

/-- The place behind a tag with this margin, and whether white space is to be skipped there. -/
def afterTag (c : Cursor) : Margin → Cursor × Bool
  | .standard => (c.skipLineEnd, false)
  | .keep => (c, false)
  | .strip => (c, true)

/-! ## Inside of tags -/

/-- Operators of two characters. -/
def longSigns : List (List Char) :=
  [['/', '/'], ['*', '*'], ['=', '='], ['!', '='], ['>', '='], ['<', '=']]

/-- Operators and brackets of one character. -/
def shortSigns : List Char :=
  ['+', '-', '*', '/', '%', '!', '.', ',', ':', '~', '|', '=', '>', '<', '(', ')', '[', ']',
    '{', '}']

/-- A character that a name can begin with. -/
def isNameStart (c : Char) : Bool := c.isAlpha || c = '_'

/-- A character that a name can go on with. -/
def isNameChar (c : Char) : Bool := c.isAlphanum || c = '_'

/-- The number of characters of a string behind its opening quote, if it is closed. -/
def stringLength? (quote : Char) : (escaped : Bool) → List Char → Option Nat
  | _, [] => none
  | true, _ :: rest => (stringLength? quote false rest).map (· + 1)
  | false, c :: rest =>
    if c = quote then some 0 else (stringLength? quote (c = '\\') rest).map (· + 1)

/-- The character that a backslash and this one stand for. -/
def simpleEscape? (c : Char) : Option Char :=
  if c = 'n' then some '\n'
  else if c = 't' then some '\t'
  else if c = 'r' then some '\r'
  else if c = 'b' then some '\x08'
  else if c = 'f' then some '\x0c'
  else if c = '"' || c = '\'' || c = '\\' || c = '/' then some c
  else none

/-- A character given by four hexadecimal digits, or by eight in two escapes. -/
def unicodeEscape? (cs : List Char) : Option (Char × List Char) := do
  let unit (cs : List Char) : Option Nat :=
    if (cs.take 4).length = 4 then Digits.read? 16 (cs.take 4) else none
  let high ← unit cs
  if 0xD800 ≤ high && high < 0xDC00 then
    match cs.drop 4 with
    | '\\' :: 'u' :: more =>
      let low ← unit more
      guard (0xDC00 ≤ low && low < 0xE000)
      return (Char.ofNat (0x10000 + (high - 0xD800) * 0x400 + (low - 0xDC00)), more.drop 4)
    | _ => none
  else
    guard (!(0xDC00 ≤ high && high < 0xE000))
    return (Char.ofNat high, cs.drop 4)

/-- What stands between the quotes of a string, with its escapes resolved. Every step takes a
character, so the length is enough steps. -/
def unescape? : (steps : Nat) → List Char → Option (List Char)
  | 0, _ => none
  | _, [] => some []
  | steps + 1, c :: cs =>
    if c != '\\' then (unescape? steps cs).map (c :: ·)
    else
      match cs with
      | 'u' :: more => do
        let (d, more) ← unicodeEscape? more
        return d :: (← unescape? steps more)
      | d :: more => do
        let e ← simpleEscape? d
        return e :: (← unescape? steps more)
      | [] => none

/-- A number and the number of characters it takes. -/
def number (cs : List Char) : Token × Nat :=
  let isDigit (c : Char) : Bool := Digits.isDecimal c || c = '_'
  let whole := cs.takeWhile isDigit
  let rest := cs.dropWhile isDigit
  let value (ds : List Char) : List Char := ds.filter (· != '_')
  match rest with
  | '.' :: after =>
    if (after.head?.map Digits.isDecimal).getD false then
      let fraction := after.takeWhile isDigit
      (.float (Digits.toFloat (value whole) (value fraction) 0),
        whole.length + 1 + fraction.length)
    else (.int ((Digits.read? 10 (value whole)).getD 0), whole.length)
  | _ => (.int ((Digits.read? 10 (value whole)).getD 0), whole.length)

/-- The token at the beginning of the inside of a tag, and how many characters it takes. -/
def insideToken (cs : List Char) : Token × Nat :=
  if longSigns.contains (cs.take 2) then (.sign (String.ofList (cs.take 2)), 2)
  else
    match cs with
    | [] => (.flaw "syntax error" "unexpected character", 0)
    | c :: rest =>
      if c = '"' || c = '\'' then
        match stringLength? c false rest with
        | none => (.flaw "syntax error" "unexpected end of string", 0)
        | some n =>
          match unescape? (n + 1) (rest.take n) with
          | some s => (.str (String.ofList s), n + 2)
          | none => (.flaw "bad string escape" "bad string escape", 0)
      else if shortSigns.contains c then (.sign (String.singleton c), 1)
      else if Digits.isDecimal c then number cs
      else if isNameStart c then
        let name := cs.takeWhile isNameChar
        (.ident (String.ofList name), name.length)
      else (.flaw "syntax error" "unexpected character", 0)

/-- How the number of open brackets changes with a token. -/
def bracketChange : Token → Int
  | .sign s =>
    if ["(", "[", "\x7b"].contains s then 1
    else if [")", "]", "\x7d"].contains s then -1
    else 0
  | _ => 0

/-- The end of a tag, if it is here: how many characters it takes, and the margin behind it. Behind
an expression only a minus sign counts. -/
def tagEnd? (tag : Tag) (cs : List Char) : Option (Nat × Margin) :=
  match tag, cs with
  | .variable, '}' :: '}' :: _ => some (2, .keep)
  | .variable, '-' :: '}' :: '}' :: _ => some (3, .strip)
  | .block, '%' :: '}' :: _ => some (2, .standard)
  | .block, '-' :: '%' :: '}' :: _ => some (3, .strip)
  | .block, '+' :: '%' :: '}' :: _ => some (3, .keep)
  | _, _ => none

mutual

/-- The tokens of a text outside of tags, each with its line. Every step takes at least a
character or enters a tag, so twice the length is enough steps. -/
def outsideTokens : (steps : Nat) → (strip : Bool) → Cursor → List (Token × Nat)
  | 0, _, _ => []
  | steps + 1, strip, c =>
    let c := if strip then c.skipSpace else c
    match findTag? c.rest with
    | none => if c.rest.isEmpty then [] else [(.text (String.ofList c.rest), c.line)]
    | some (n, tag) =>
      let margin := Margin.ofChar? (c.rest.drop (n + 2)).head?
      let lead := c.rest.take n
      let start := c.advance n
      let lead := match margin with
        | .strip => trimEndWhile Text.isWhiteSpace lead
        | .keep => lead
        | .standard => if tag != .variable && start.lineBlank then trimLastLine lead else lead
      let before := if lead.isEmpty then [] else [(.text (String.ofList lead), c.line)]
      let inner := start.advance (2 + margin.width)
      before ++ match tag with
        | .variable => (.variableStart, start.line) :: insideTokens steps .variable 0 inner
        | .comment =>
          match findPair? '#' '}' inner.rest with
          | none => [(.flaw "syntax error" "unexpected end of comment", start.line)]
          | some n =>
            let (c, strip) := afterTag (inner.advance (n + 2))
              (Margin.ofChar? (inner.rest.drop (n - 1)).head?)
            outsideTokens steps strip c
        | .block =>
          match wordTag? "raw" inner.rest with
          | none => (.blockStart, start.line) :: insideTokens steps .block 0 inner
          | some (n, margin) =>
            let c := inner.advance n
            match findRawEnd? 0 c.rest with
            | none => [(.flaw "syntax error" "unexpected end of raw block", c.line)]
            | some (n, endMargin, width, after) =>
              let raw := c.rest.take n
              let raw := match margin with
                | .standard => (Cursor.skipLineEnd ⟨raw, 0, true⟩).rest
                | .keep => raw
                | .strip => raw.dropWhile Text.isWhiteSpace
              let raw := match endMargin with
                | .standard => trimLastLine raw
                | .keep => raw
                | .strip => trimEndWhile Text.isWhiteSpace raw
              let (next, strip) := afterTag (c.advance (n + width)) after
              (.text (String.ofList raw), c.line) :: outsideTokens steps strip next

/-- The tokens of a text inside of a tag, where some brackets are open. -/
def insideTokens : (steps : Nat) → Tag → (brackets : Int) → Cursor → List (Token × Nat)
  | 0, _, _, _ => []
  | steps + 1, tag, brackets, c =>
    let c := c.advance (c.rest.takeWhile isBlank).length
    if c.rest.isEmpty then []
    else
      match if brackets = 0 then tagEnd? tag c.rest else none with
      | some (n, margin) =>
        let token := if tag = .block then Token.blockEnd else .variableEnd
        let (next, strip) := afterTag (c.advance n) margin
        (token, c.line) :: outsideTokens steps strip next
      | none =>
        let (token, n) := insideToken c.rest
        if n = 0 then [(token, c.line)]
        else (token, c.line) :: insideTokens steps tag (brackets + bracketChange token) (c.advance n)

end

/-- The tokens of a template, each with its line. -/
def tokens (source : String) : List (Token × Nat) :=
  let cs := source.toList
  outsideTokens (2 * cs.length + 2) false ⟨cs, 1, true⟩

end Regen.Template
