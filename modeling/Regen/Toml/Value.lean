/-!
# TOML values

The values of a TOML document. The fields of a table are in the order of their keys;
dates and times are kept in their normal spelling.
-/

namespace Regen.Toml

/-- A value of a TOML document. -/
inductive Value where
  /-- A string. -/
  | str (s : String)
  /-- An integer of 64 bits. -/
  | int (n : Int)
  /-- A floating point number, which may be infinite or no number. -/
  | float (x : Float)
  /-- A truth value. -/
  | bool (b : Bool)
  /-- A date, a time or both, in normal spelling. -/
  | moment (shown : String)
  /-- A list. -/
  | array (items : List Value)
  /-- Values by key. -/
  | table (fields : List (String × Value))
  deriving Inhabited

/-- A table. -/
abbrev Table := List (String × Value)

end Regen.Toml
