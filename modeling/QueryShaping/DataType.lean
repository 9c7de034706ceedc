/-!
The types of shapes, fragments and references.
-/

namespace QueryShaping

inductive DataType where
  | int64
  | float32
  | float64
  | bool
  | string
  /-- Days since the epoch. -/
  | date
  /-- Microseconds since the epoch. -/
  | timestamp
  /-- The part of a row from which one entity is materialised. -/
  | valueBuffer
  /-- A mapped entity. -/
  | entity (name : String)
  /-- An object that only the client knows. -/
  | object (name : String)
  | enumerable (element : DataType)
deriving DecidableEq, Hashable, Repr

namespace DataType

/-- The types whose values a store can hold and return. -/
def isStore : DataType → Bool
  | int64 | float32 | float64 | bool | string | date | timestamp => true
  | valueBuffer | entity _ | object _ | enumerable _ => false

def isEnumerable : DataType → Bool
  | enumerable _ => true
  | _ => false

def text : DataType → String
  | int64 => "INT64"
  | float32 => "FLOAT32"
  | float64 => "FLOAT64"
  | bool => "BOOL"
  | string => "STRING"
  | date => "DATE"
  | timestamp => "TIMESTAMP"
  | valueBuffer => "VALUE_BUFFER"
  | entity name | object name => name
  | enumerable element => "ENUMERABLE<" ++ element.text ++ ">"

end DataType

end QueryShaping
