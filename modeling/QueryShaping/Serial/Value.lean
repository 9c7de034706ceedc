import QueryShaping.Serial.Basic
import QueryShaping.Value

/-!
JSON forms of values. Floats are read but not written.
-/

namespace QueryShaping.Value

/-- A float has no form: not every bit pattern is a JSON number. -/
def encode? : Value → Option Json
  | int64 n => some (.object [("Int64", .int n.toInt)])
  | float32 _ | float64 _ => none
  | bool b => some (.object [("Bool", .bool b)])
  | string s => some (.object [("String", .string s)])
  | date days => some (.object [("Date", .int days.toInt)])
  | timestamp t => some (.object [("Timestamp", .int t.toInt)])
  | null => some (.string "Null")

def int64? : Json → Option Int64
  | .int n =>
    if Int64.minValue.toInt ≤ n ∧ n ≤ Int64.maxValue.toInt then some (.ofInt n) else none
  | _ => none

def int32? : Json → Option Int32
  | .int n =>
    if Int32.minValue.toInt ≤ n ∧ n ≤ Int32.maxValue.toInt then some (.ofInt n) else none
  | _ => none

/-- An integer is read as the float nearest to it. -/
def float64? : Json → Option UInt64
  | .int n => some (Float.ofInt n).toBits
  | .float bits => some bits
  | _ => none

def float32? : Json → Option UInt32
  | .int n => some (Float32.ofInt n).toBits
  | .float bits => some (Float.ofBits bits).toFloat32.toBits
  | _ => none

def decode? (j : Json) : Option Value :=
  match j.tagged? with
  | some ("Null", none) | some ("Null", some .null) => some null
  | some ("Int64", some j) => (int64? j).map int64
  | some ("Float32", some j) => (float32? j).map float32
  | some ("Float64", some j) => (float64? j).map float64
  | some ("Bool", some j) => j.bool?.map bool
  | some ("String", some j) => j.string?.map string
  | some ("Date", some j) => (int32? j).map date
  | some ("Timestamp", some j) => (int64? j).map timestamp
  | _ => none

end QueryShaping.Value
