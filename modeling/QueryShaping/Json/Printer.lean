import QueryShaping.Decimal.Positional
import QueryShaping.Hex
import QueryShaping.Json.Basic

/-!
Compact text of JSON values.
-/

namespace QueryShaping.Json

/-- Quotes, backslashes and control characters are escaped; all else is written as it is. -/
def escape (c : Char) : List Char :=
  if c = '"' then ['\\', '"']
  else if c = '\\' then ['\\', '\\']
  else if c = '\x08' then ['\\', 'b']
  else if c = '\x0c' then ['\\', 'f']
  else if c = '\n' then ['\\', 'n']
  else if c = '\r' then ['\\', 'r']
  else if c = '\t' then ['\\', 't']
  else if c.toNat < 32 then ['\\', 'u', '0', '0', Hex.digit (c.toNat / 16), Hex.digit c.toNat]
  else [c]

def quoted (s : String) : String := "\"" ++ String.ofList (s.toList.flatMap escape) ++ "\""

/-- A float that is not a number has no JSON text of its own. -/
def floatText (bits : UInt64) : String :=
  match Decimal.binary64.decode bits.toNat with
  | .finite .. => Decimal.binary64.text bits.toNat
  | .infinite _ | .notANumber => "null"

mutual
def print : Json → String
  | null => "null"
  | bool b => if b then "true" else "false"
  | int n => toString n
  | float bits => floatText bits
  | string s => quoted s
  | array items => "[" ++ ",".intercalate (printItems items) ++ "]"
  | object fields => "\x7b" ++ ",".intercalate (printFields fields) ++ "\x7d"
def printItems : List Json → List String
  | [] => []
  | j :: rest => print j :: printItems rest
def printFields : List (String × Json) → List String
  | [] => []
  | (name, j) :: rest => (quoted name ++ ":" ++ print j) :: printFields rest
end

end QueryShaping.Json
