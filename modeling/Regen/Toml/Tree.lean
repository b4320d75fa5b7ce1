import Regen.Toml.Value

/-!
# Tables under construction

Which tables a document may still add to depends on how they came to be. A table that only stands
above another one can be opened by a header later; one that has a header or that dotted keys
filled cannot be opened again; and values, inline tables and arrays among them, are closed.
-/

namespace Regen.Toml

/-- How a table came to be. -/
inductive Origin where
  /-- It stands above a table that has a header. -/
  | implied
  /-- It has a header of its own. -/
  | header
  /-- A dotted key stands for it. -/
  | dotted
  deriving DecidableEq

/-- What a key stands for while a document is read. -/
inductive Node where
  /-- A value, which nothing can be added to. -/
  | value (v : Value)
  /-- A table. -/
  | table (origin : Origin) (fields : List (String × Node))
  /-- An array of tables, the last first. -/
  | tables (latest : List (List (String × Node)))
  deriving Inhabited

/-- The fields of a table. -/
abbrev Node.Fields := List (String × Node)

namespace Node.Fields

/-- The fields with one of them replaced or added at the end. -/
def put (fields : Node.Fields) (key : String) (node : Node) : Node.Fields :=
  if fields.any (·.1 == key) then
    fields.map fun (k, n) => if k = key then (k, node) else (k, n)
  else fields ++ [(key, node)]

/-- Adds a value under a dotted key. Along the way only tables that dotted keys made may be
entered. -/
def addValue (v : Value) : (path : List String) → Node.Fields → Option Node.Fields
  | [], _ => none
  | [key], fields =>
    match fields.lookup key with
    | none => some (fields ++ [(key, .value v)])
    | some _ => none
  | key :: path, fields =>
    match fields.lookup key with
    | none => do return fields ++ [(key, .table .dotted (← addValue v path []))]
    | some (.table .dotted inner) => do
      return fields.put key (.table .dotted (← addValue v path inner))
    | some _ => none

/-- Applies a change to the table at a path of headers, where arrays of tables stand for their
last table and tables on the way come to be as needed. -/
def descend (change : Node.Fields → Option Node.Fields) :
    (path : List String) → Node.Fields → Option Node.Fields
  | [], fields => change fields
  | key :: path, fields =>
    match fields.lookup key with
    | none => do return fields ++ [(key, .table .implied (← descend change path []))]
    | some (.table origin inner) => do
      return fields.put key (.table origin (← descend change path inner))
    | some (.tables (last :: before)) => do
      return fields.put key (.tables ((← descend change path last) :: before))
    | some _ => none

/-- Opens the table of a header. -/
def openTable (path : List String) (fields : Node.Fields) : Option Node.Fields :=
  match path.getLast? with
  | none => none
  | some key =>
    descend (fun inner =>
      match inner.lookup key with
      | none => some (inner ++ [(key, .table .header [])])
      | some (.table .implied below) => some (inner.put key (.table .header below))
      | some _ => none) path.dropLast fields

/-- Opens a further table of an array of tables. -/
def openElement (path : List String) (fields : Node.Fields) : Option Node.Fields :=
  match path.getLast? with
  | none => none
  | some key =>
    descend (fun inner =>
      match inner.lookup key with
      | none => some (inner ++ [(key, .tables [[]])])
      | some (.tables latest) => some (inner.put key (.tables ([] :: latest)))
      | some _ => none) path.dropLast fields

end Node.Fields

/-- The fields of a finished table in the order of their keys. -/
def sortFields (fields : Table) : Table := fields.mergeSort fun a b => a.1 ≤ b.1

mutual

/-- The finished value of a node. -/
def Node.finish : Node → Value
  | .value v => v
  | .table _ fields => .table (sortFields (finishFields fields))
  | .tables latest => .array (finishTables latest).reverse

/-- The finished values of the fields of a table. -/
def finishFields : List (String × Node) → List (String × Value)
  | [] => []
  | (key, node) :: rest => (key, node.finish) :: finishFields rest

/-- The finished tables of an array, the last first. -/
def finishTables : List (List (String × Node)) → List Value
  | [] => []
  | fields :: rest => .table (sortFields (finishFields fields)) :: finishTables rest

end

end Regen.Toml
