import QueryShaping.Operator
import QueryShaping.Parameter
import QueryShaping.Serial.Basic

/-!
JSON forms of types, operators and parameters.
-/

namespace QueryShaping

namespace DataType

/-- The types that are written as a name alone. -/
def plain : List (String × DataType) :=
  [("Int64", int64), ("Float32", float32), ("Float64", float64), ("Bool", bool),
    ("String", string), ("Date", date), ("Timestamp", timestamp), ("ValueBuffer", valueBuffer)]

def encode : DataType → Json
  | int64 => .string "Int64"
  | float32 => .string "Float32"
  | float64 => .string "Float64"
  | bool => .string "Bool"
  | string => .string "String"
  | date => .string "Date"
  | timestamp => .string "Timestamp"
  | valueBuffer => .string "ValueBuffer"
  | entity name => .object [("Entity", .string name)]
  | object name => .object [("Object", .string name)]
  | enumerable element => .object [("Enumerable", element.encode)]

def decode? : Json → Option DataType
  | .string tag => plain.lookup tag
  | .object [("Entity", content)] => content.string?.map entity
  | .object [("Object", content)] => content.string?.map object
  | .object [("Enumerable", content)] => (decode? content).map enumerable
  | .object [(tag, .null)] => plain.lookup tag
  | _ => none

instance : Serial DataType := ⟨encode, decode?⟩

end DataType

namespace Operator

def all : List Operator := [add, sub, mul, div, mod, eq, neq, lt, lte, gt, gte, and, or]

def tag : Operator → String
  | add => "Add"
  | sub => "Sub"
  | mul => "Mul"
  | div => "Div"
  | mod => "Mod"
  | eq => "Eq"
  | neq => "Neq"
  | lt => "Lt"
  | lte => "Lte"
  | gt => "Gt"
  | gte => "Gte"
  | and => "And"
  | or => "Or"

def ofTag? (tag : String) : Option Operator := all.find? (·.tag = tag)

def encode (op : Operator) : Json := .string op.tag

def decode? (j : Json) : Option Operator := do
  let tag ← j.bareTag?
  ofTag? tag

instance : Serial Operator := ⟨encode, decode?⟩

end Operator

namespace Parameter

def encode (p : Parameter) : Json :=
  .object [("name", .string p.name), ("data_type", p.type.encode)]

def decode? (j : Json) : Option Parameter :=
  match j.record? ["name", "data_type"] with
  | some [name, type] => do
    let name ← name.string?
    let type ← DataType.decode? type
    return ⟨name, type⟩
  | _ => none

instance : Serial Parameter := ⟨encode, decode?⟩

end Parameter

end QueryShaping
