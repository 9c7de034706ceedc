/-!
JSON values.
-/

namespace QueryShaping

/-- A number is kept as an integer where it was written as one that fits a word, else as the bits
of a float. -/
inductive Json where
  | null
  | bool (b : Bool)
  | int (n : Int)
  | float (bits : UInt64)
  | string (s : String)
  | array (items : List Json)
  | object (fields : List (String × Json))
deriving Inhabited, Repr

namespace Json

def string? : Json → Option String
  | string s => some s
  | _ => none

def bool? : Json → Option Bool
  | bool b => some b
  | _ => none

def array? : Json → Option (List Json)
  | array items => some items
  | _ => none

def field? (name : String) : Json → Option Json
  | object fields => fields.lookup name
  | _ => none

end Json

end QueryShaping
