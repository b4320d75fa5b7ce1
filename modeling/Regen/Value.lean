import Regen.Text.Basic

/-!
# Values

What templates compute with: the values of a context come from configuration files, from JSON
files and from the command line.
-/

namespace Regen

/-- A value of a template variable. -/
inductive Value where
  /-- No value. -/
  | null
  /-- A truth value. -/
  | bool (b : Bool)
  /-- A whole number. -/
  | int (n : Int)
  /-- A number in floating point. -/
  | float (x : Float)
  /-- A string. -/
  | str (s : String)
  /-- A list. -/
  | list (items : List Value)
  /-- Values by key, with distinct keys in the order of their bytes. -/
  | object (fields : List (String × Value))
  deriving Inhabited

/-- Fields by key, with distinct keys in the order of their bytes. -/
abbrev Fields := List (String × Value)

namespace Fields

/-- The value of a key. -/
def get? (fields : Fields) (key : String) : Option Value := fields.lookup key

/-- The fields with one of them set. Keys stay in order. The order of strings is that of their
characters, which is also the order of their bytes. -/
def set : Fields → String → Value → Fields
  | [], key, value => [(key, value)]
  | (k, v) :: rest, key, value =>
    if key < k then (key, value) :: (k, v) :: rest
    else if key = k then (key, value) :: rest
    else (k, v) :: set rest key value

/-- The fields of `later` on top of those of `base`. -/
def union (base later : Fields) : Fields := later.foldl (fun acc (k, v) => acc.set k v) base

/-- The fields with these keys and values, where a later value for a key wins. -/
def ofList (pairs : List (String × Value)) : Fields := union [] pairs

end Fields

/-- The variables a template can use. -/
abbrev Context := Fields

end Regen
