import Regen.Number.Shortest
import Regen.Template.Grammar
import Regen.Text.LetterCase
import Regen.Text.Trim

/-!
# Computing with values in templates

How values are printed, compared, ordered, tested and combined. Whole numbers, truth values and
floating point numbers count as one kind of number where they meet. An operation that is not defined
for its operands is an error with a message of its own.
-/

namespace Regen.Template

/-- What an expression comes to: a value, or nothing. Nothing is an error wherever it is used, except
where a choice has left it out on purpose, which is silent. -/
inductive Operand where
  /-- No value. -/
  | undefined (silent : Bool)
  /-- A value. -/
  | value (v : Value)
  deriving Inhabited

/-! ## Printing -/

/-- Numbers are never printed with an exponent. -/
def numberLayout : NumberLayout := ⟨none, none⟩

/-- A number in floating point as it is printed. -/
def printFloat (x : Float) : String :=
  if x.isNaN then "NaN"
  else if x.isInf then if x < 0 then "-inf" else "inf"
  else numberLayout.renderFloat x

/-- A character of a string inside a list, with quotes and control characters spelled out. -/
def quoteChar (c : Char) : String :=
  if c = '"' then "\\\""
  else if c = '\\' then "\\\\"
  else if c = '\n' then "\\n"
  else if c = '\r' then "\\r"
  else if c = '\t' then "\\t"
  else if c.toNat = 0 then "\\0"
  else if c.toNat < 32 || c.toNat = 127 then
    "\\u\x7b" ++ String.ofList (Nat.toDigits 16 c.toNat) ++ "\x7d"
  else String.singleton c

/-- A string inside a list. -/
def quoteString (s : String) : String := "\"" ++ String.join (s.toList.map quoteChar) ++ "\""

mutual

/-- A value inside a list. -/
def inner : Value → String
  | .null => "None"
  | .bool b => if b then "True" else "False"
  | .int n => toString n
  | .float x => printFloat x
  | .str s => quoteString s
  | .list items => "[" ++ ", ".intercalate (innerItems items) ++ "]"
  | .object fields => "\x7b" ++ ", ".intercalate (innerFields fields) ++ "\x7d"

/-- The items of a list. -/
def innerItems : List Value → List String
  | [] => []
  | v :: rest => inner v :: innerItems rest

/-- The fields of an object. -/
def innerFields : List (String × Value) → List String
  | [] => []
  | (key, v) :: rest => (quoteString key ++ ": " ++ inner v) :: innerFields rest

end

/-- A value as it is printed. -/
def print : Value → String
  | .str s => s
  | v => inner v

/-- An operand as it is printed where nothing is allowed. -/
def Operand.printed : Operand → String
  | .undefined _ => ""
  | .value v => print v

/-! ## Kinds -/

/-- The kind of an operand as messages call it. -/
def Operand.kind : Operand → String
  | .undefined _ => "undefined"
  | .value .null => "none"
  | .value (.bool _) => "bool"
  | .value (.int _) => "number"
  | .value (.float _) => "number"
  | .value (.str _) => "string"
  | .value (.list _) => "sequence"
  | .value (.object _) => "map"

/-- The rank of a kind when values of different kinds are ordered. -/
def kindRank : Value → Nat
  | .null => 1
  | .bool _ => 2
  | .int _ | .float _ => 3
  | .str _ => 4
  | .list _ => 5
  | .object _ => 6

/-- A number, whole or not. -/
inductive Num where
  /-- A whole number. -/
  | int (n : Int)
  /-- A number in floating point. -/
  | float (x : Float)

/-- A whole number as one in floating point. -/
def floatOfInt (n : Int) : Float :=
  if n < 0 then -(Float.ofNat n.natAbs) else Float.ofNat n.natAbs

/-- The number in floating point. -/
def Num.toFloat : Num → Float
  | .int n => floatOfInt n
  | .float x => x

/-- The number that a value counts as, if any. -/
def num? : Value → Option Num
  | .bool b => some (.int (if b then 1 else 0))
  | .int n => some (.int n)
  | .float x => some (.float x)
  | _ => none

/-- Whether two numbers are equal. -/
def Num.same : Num → Num → Bool
  | .int a, .int b => a == b
  | a, b => a.toFloat == b.toFloat

/-- How two numbers are ordered. -/
def Num.order : Num → Num → Ordering
  | .int a, .int b => compare a b
  | a, b => if a.toFloat < b.toFloat then .lt else if b.toFloat < a.toFloat then .gt else .eq

mutual

/-- Whether two values are equal. -/
def same : Value → Value → Bool
  | .null, .null => true
  | .str a, .str b => a == b
  | .list as, .list bs => sameItems as bs
  | .object as, .object bs => sameFields as bs
  | a, b =>
    match num? a, num? b with
    | some m, some n => m.same n
    | _, _ => false

/-- Whether two lists have equal items. -/
def sameItems : List Value → List Value → Bool
  | [], [] => true
  | a :: as, b :: bs => same a b && sameItems as bs
  | _, _ => false

/-- Whether two objects have equal fields. -/
def sameFields : List (String × Value) → List (String × Value) → Bool
  | [], [] => true
  | (k, a) :: as, (l, b) :: bs => k == l && same a b && sameFields as bs
  | _, _ => false

end

mutual

/-- How two values are ordered. -/
def order : Value → Value → Ordering
  | .str a, .str b => compare a b
  | .list as, .list bs => orderItems as bs
  | a, b =>
    match num? a, num? b with
    | some m, some n => m.order n
    | _, _ => compare (kindRank a) (kindRank b)

/-- How two lists are ordered. -/
def orderItems : List Value → List Value → Ordering
  | [], [] => .eq
  | [], _ => .lt
  | _, [] => .gt
  | a :: as, b :: bs => (order a b).then (orderItems as bs)

end

/-- Whether two operands are equal. -/
def Operand.same : Operand → Operand → Bool
  | .value a, .value b => Template.same a b
  | .undefined _, .undefined _ => true
  | _, _ => false

/-- How two operands are ordered. Nothing comes before everything. -/
def Operand.order : Operand → Operand → Ordering
  | .value a, .value b => Template.order a b
  | .undefined _, .undefined _ => .eq
  | .undefined _, _ => .lt
  | _, .undefined _ => .gt

/-- Whether a value counts as true. -/
def truthy : Value → Bool
  | .null => false
  | .bool b => b
  | .int n => n != 0
  | .float x => x != 0
  | .str s => s != ""
  | .list items => !items.isEmpty
  | .object fields => !fields.isEmpty

/-! ## Operators -/

/-- An error apart from its line. -/
structure Refusal where
  /-- The category. -/
  kind : String
  /-- What went wrong. -/
  message : String

/-- An operation was not possible. -/
def Refusal.invalid (message : String) : Refusal := ⟨"invalid operation", message⟩

/-- Nothing was used as if it were something. -/
def Refusal.undefined : Refusal := ⟨"undefined value", "undefined value"⟩

/-- A computation that may be refused. -/
abbrev Allowed := Except Refusal

/-- The sign of an operator, for messages. -/
def BinaryOp.sign : BinaryOp → String
  | .add => "+"
  | .sub => "-"
  | .mul => "*"
  | .div => "/"
  | .floorDiv => "//"
  | .rem => "%"
  | .concat => "~"
  | .eq => "=="
  | .ne => "!="
  | .lt => "<"
  | .le => "<="
  | .gt => ">"
  | .ge => ">="
  | .elem => "in"

/-- The operands are of kinds that the operator is not for. -/
def unsupported {α : Type} (op : BinaryOp) (a b : Operand) : Allowed α :=
  .error (.invalid
    s!"tried to use {op.sign} operator on unsupported types {a.kind} and {b.kind}")

/-- The operands are of the right kinds, but there is no result. -/
def impossible {α : Type} (op : BinaryOp) (a b : Operand) : Allowed α :=
  .error (.invalid s!"unable to calculate {a.printed} {op.sign} {b.printed}")

/-- The least natural number that is too large for a result. -/
def resultBound : Nat := Nat.pow 2 127

/-- Whether a whole number is small enough for a result. -/
def fitsResult (n : Int) : Bool := -(resultBound : Int) ≤ n && n < resultBound

/-- The whole number an operator makes of two, if there is one. -/
def intResult? (op : BinaryOp) (m n : Int) : Option Int :=
  let result? := match op with
    | .add => some (m + n)
    | .sub => some (m - n)
    | .mul => some (m * n)
    | .floorDiv => if n = 0 then none else some (m / n)
    | .rem => if n = 0 then none else some (m % n)
    | _ => none
  result?.filter fitsResult

/-- The remainder in floating point, which is not negative. -/
def floatRem (x y : Float) : Float :=
  let r := x - y * (x / y).floor
  if r < 0 then r + y.abs else r

/-- The number in floating point that an operator makes of two. -/
def floatResult (op : BinaryOp) (x y : Float) : Float :=
  match op with
  | .add => x + y
  | .sub => x - y
  | .mul => x * y
  | .floorDiv => if y < 0 then (x / y).ceil else (x / y).floor
  | .rem => floatRem x y
  | _ => x / y

/-- A value repeated a number of times, for strings and lists. -/
def repeated? : Value → Value → Option Value
  | .str s, .int n => if n < 0 then none else some (.str (String.join (List.replicate n.toNat s)))
  | .list items, .int n =>
    if n < 0 then none else some (.list (List.replicate n.toNat items).flatten)
  | _, _ => none

/-- The result of an operator that computes. -/
def arithmetic (op : BinaryOp) (a b : Operand) : Allowed Operand :=
  match a, b with
  | .value v, .value w =>
    match op, v, w with
    | .add, .str s, .str t => .ok (.value (.str (s ++ t)))
    | .add, .list s, .list t => .ok (.value (.list (s ++ t)))
    | _, _, _ =>
      match num? v, num? w with
      | some (.int m), some (.int n) =>
        if op = .div then .ok (.value (.float (floatOfInt m / floatOfInt n)))
        else
          match intResult? op m n with
          | some r => .ok (.value (.int r))
          | none => impossible op a b
      | some m, some n => .ok (.value (.float (floatResult op m.toFloat n.toFloat)))
      | _, _ =>
        match if op = .mul then repeated? v w <|> repeated? w v else none with
        | some r => .ok (.value r)
        | none => unsupported op a b
  | _, _ => unsupported op a b

/-- Whether one string occurs in another. -/
def occursIn (part : List Char) : List Char → Bool
  | [] => part.isEmpty
  | c :: rest => part.isPrefixOf (c :: rest) || occursIn part rest

/-- Whether an operand is part of another one. -/
def contains (container element : Operand) : Allowed Bool :=
  match container with
  | .undefined _ => .error .undefined
  | .value (.str s) => .ok (occursIn element.printed.toList s.toList)
  | .value (.list items) => .ok (items.any fun item => (Operand.value item).same element)
  | .value (.object fields) =>
    match element with
    | .value (.str key) => .ok (fields.any (·.1 == key))
    | _ => .ok false
  | .value _ => .error (.invalid "cannot perform a containment check on this value")

/-- The result of an operator. -/
def BinaryOp.apply (op : BinaryOp) (a b : Operand) : Allowed Operand :=
  let truth (b : Bool) : Allowed Operand := .ok (.value (.bool b))
  match op with
  | .concat => .ok (.value (.str (a.printed ++ b.printed)))
  | .eq => truth (a.same b)
  | .ne => truth (!a.same b)
  | .lt => truth (a.order b == .lt)
  | .le => truth (a.order b != .gt)
  | .gt => truth (a.order b == .gt)
  | .ge => truth (a.order b != .lt)
  | .elem => do truth (← contains b a)
  | op => arithmetic op a b

/-- The negative of a number. -/
def negative : Operand → Allowed Operand
  | .value (.int n) => .ok (.value (.int (-n)))
  | .value (.float x) => .ok (.value (.float (-x)))
  | _ => .error (.invalid "invalid operation")

/-- Whether an operand counts as true. -/
def Operand.isTrue : Operand → Allowed Bool
  | .undefined false => .error .undefined
  | .undefined true => .ok false
  | .value v => .ok (truthy v)

/-! ## Parts of values -/

/-- The value of a key, or nothing. -/
def attributeOf (key : String) : Operand → Allowed Operand
  | .undefined _ => .error .undefined
  | .value (.object fields) => .ok (((fields.lookup key).map .value).getD (.undefined false))
  | .value _ => .ok (.undefined false)

/-- The item at a position, which counts from the end if it is negative. -/
def itemAt? {α : Type} (items : List α) (n : Int) : Option α :=
  if 0 ≤ n then items[n.toNat]?
  else if (-n).toNat ≤ items.length then items[items.length - (-n).toNat]?
  else none

/-- The position that a value stands for: a number without a fraction, or a truth value. -/
def position? : Value → Option Int
  | .int n => some n
  | .bool b => some (if b then 1 else 0)
  | .float x =>
    let n := x.toInt64.toInt
    if floatOfInt n == x then some n else none
  | _ => none

/-- The part of a value at a position or of a key. -/
def part? (container index : Value) : Option Value :=
  match container with
  | .list items => (position? index).bind (itemAt? items)
  | .str s => ((position? index).bind (itemAt? s.toList)).map fun c => .str (String.singleton c)
  | .object fields =>
    match index with
    | .str key => fields.lookup key
    | _ => none
  | _ => none

/-- The value of a key or at a position, or nothing. -/
def element (container index : Operand) : Allowed Operand :=
  match container, index with
  | .undefined _, _ => .error .undefined
  | .value v, .value w => .ok (((part? v w).map .value).getD (.undefined false))
  | .value _, .undefined _ => .ok (.undefined false)

/-- The items that a loop goes through: those of a list, the keys of an object, the characters of a
string. -/
def itemsOf : Operand → Allowed (List Value)
  | .undefined _ => .error .undefined
  | .value .null => .ok []
  | .value (.list items) => .ok items
  | .value (.object fields) => .ok (fields.map fun (key, _) => .str key)
  | .value (.str s) => .ok (s.toList.map fun c => .str (String.singleton c))
  | operand => .error (.invalid s!"{operand.kind} is not iterable")

/-! ## Filters, tests and functions -/

/-- An operand as the string a filter works on. -/
def stringOf : Operand → Allowed String
  | .undefined _ => .error .undefined
  | .value v => .ok (print v)

/-- A string without the characters of a kind at its ends. -/
def trimWhile (p : Char → Bool) (s : String) : String :=
  String.ofList ((s.toList.dropWhile p).reverse.dropWhile p).reverse

/-- The printed forms of values behind each other, with a separator in front of each that comes
after something printed. -/
def joined (separator : String) (items : List Value) : String :=
  items.foldl (fun acc v => (if acc = "" then acc else acc ++ separator) ++ print v) ""

/-- The number of items, fields or characters of an operand. -/
def sizeOf? : Operand → Option Nat
  | .value (.str s) => some s.length
  | .value (.list items) => some items.length
  | .value (.object fields) => some fields.length
  | _ => none

/-- A filter applied to an operand. -/
def applyFilter (name : String) (operand : Operand) (args : List Operand) : Allowed Operand :=
  let string (s : String) : Allowed Operand := .ok (.value (.str s))
  match name with
  | "upper" => do string (LetterCase.upper (← stringOf operand))
  | "lower" => do string (LetterCase.lower (← stringOf operand))
  | "trim" => do
    let s ← stringOf operand
    match args with
    | [] => string (trimWhile Text.isWhiteSpace s)
    | chars :: _ => do
      let chars := (← stringOf chars).toList
      string (trimWhile chars.contains s)
  | "join" =>
    match operand with
    | .undefined _ => string ""
    | .value .null => string ""
    | _ => do
      let separator ← match args with
        | [] => pure ""
        | separator :: _ => stringOf separator
      match itemsOf operand with
      | .ok items => string (joined separator items)
      | .error _ => .error (.invalid s!"cannot join value of type {operand.kind}")
  | "length" | "count" =>
    match sizeOf? operand with
    | some n => .ok (.value (.int n))
    | none => .error (.invalid s!"cannot calculate length of value of type {operand.kind}")
  | "default" | "d" =>
    let other := args.head?.getD (.value (.str ""))
    match operand with
    | .undefined _ => .ok other
    | .value v =>
      match args.drop 1 with
      | .value (.bool true) :: _ => .ok (if truthy v then operand else other)
      | _ => .ok operand
  | name => .error ⟨"unknown filter", s!"filter {name} is unknown"⟩

/-- The outcome of a test of the form `is`. -/
def applyTest (name : String) (operand : Operand) : Allowed Bool :=
  match name with
  | "defined" => .ok (operand matches .value _)
  | "undefined" => .ok (operand matches .undefined _)
  | "none" => .ok (operand matches .value .null)
  | name => .error ⟨"unknown test", s!"test {name} is unknown"⟩

/-- The numbers from one up to below another, in steps. -/
def rangeFrom (start step : Int) (count : Nat) : List Value :=
  (List.range count).map fun (i : Nat) => .int (start + step * (i : Int))

/-- How many numbers a range has. -/
def rangeCount (start stop step : Int) : Nat :=
  if step > 0 then ((stop - start + step - 1) / step).toNat
  else ((start - stop - step - 1) / (-step)).toNat

/-- The range of numbers of a call. -/
def range (args : List Operand) : Allowed Operand := do
  let bounds ← match args with
    | [.value (.int stop)] => pure ((0, stop, 1) : Int × Int × Int)
    | [.value (.int start), .value (.int stop)] => pure (start, stop, 1)
    | [.value (.int start), .value (.int stop), .value (.int step)] => pure (start, stop, step)
    | [] => .error ⟨"missing argument", "missing argument"⟩
    | _ => .error (.invalid "cannot convert value to a whole number")
  let (start, stop, step) := bounds
  if step = 0 then .error (.invalid "cannot create range with step of 0")
  else
    let count := rangeCount start stop step
    if count > 100000 then .error (.invalid "range has too many elements")
    else return .value (.list (rangeFrom start step count))

end Regen.Template
