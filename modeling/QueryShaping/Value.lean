import QueryShaping.DataType
import QueryShaping.Decimal.Positional

/-!
Values of constants and parameters. Floats are kept as their bits, so that equality tells the two
zeros apart and a NaN equals itself.
-/

namespace QueryShaping

inductive Value where
  | int64 (n : Int64)
  | float32 (bits : UInt32)
  | float64 (bits : UInt64)
  | bool (b : Bool)
  | string (s : String)
  | date (days : Int32)
  | timestamp (microseconds : Int64)
  | null
deriving DecidableEq, Hashable, Repr

namespace Value

def isNull : Value → Bool
  | null => true
  | _ => false

/-- Null alone has no type of its own. -/
def type? : Value → Option DataType
  | int64 _ => some .int64
  | float32 _ => some .float32
  | float64 _ => some .float64
  | bool _ => some .bool
  | string _ => some .string
  | date _ => some .date
  | timestamp _ => some .timestamp
  | null => none

/-- Null stands in for a value of every type. -/
def conforms (v : Value) (type : DataType) : Bool :=
  match v.type? with
  | some own => own = type
  | none => true

def string? : Value → Option String
  | string s => some s
  | _ => none

/-- A literal's text between quotes: a quote inside is written twice. -/
def doubleQuotes : List Char → List Char
  | [] => []
  | c :: rest => if c = '\'' then '\'' :: '\'' :: doubleQuotes rest else c :: doubleQuotes rest

def text : Value → String
  | int64 n | timestamp n => toString n.toInt
  | float32 bits => Decimal.binary32.text bits.toNat
  | float64 bits => Decimal.binary64.text bits.toNat
  | bool b => if b then "TRUE" else "FALSE"
  | string s => "'" ++ String.ofList (doubleQuotes s.toList) ++ "'"
  | date days => "DATE " ++ toString days.toInt
  | null => "NULL"

end Value

end QueryShaping
