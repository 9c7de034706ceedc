import QueryShaping.Hex

/-!
Identities of queries and their texts.
-/

namespace QueryShaping

/-- A number of 128 bits. -/
structure QueryId where
  number : BitVec 128
deriving DecidableEq, Hashable, Repr

namespace QueryId

/-- Lengths of the groups between hyphens. -/
def groups : List Nat := [8, 4, 4, 4, 12]

def hyphenate : List Nat → List Char → List Char
  | [], digits => digits
  | [_], digits => digits
  | n :: rest, digits => digits.take n ++ '-' :: hyphenate rest (digits.drop n)

/-- Takes out the hyphens between groups of the given lengths. -/
def unhyphenate? : List Nat → List Char → Option (List Char)
  | [], text => if text = [] then some [] else none
  | [n], text => if text.length = n then some text else none
  | n :: rest, text =>
    match text.drop n with
    | '-' :: after => (unhyphenate? rest after).map (text.take n ++ ·)
    | _ => none

def digits (id : QueryId) : List Char := Hex.digits 32 id.number.toNat

/-- All digits without a break. -/
def text (id : QueryId) : String := String.ofList id.digits

def hyphenated (id : QueryId) : String := String.ofList (hyphenate groups id.digits)

/-- What stands before the id in its form as a uniform resource name. -/
def scheme : List Char := "urn:uuid:".toList

/-- The digits of a written id: bare, hyphenated, or hyphenated and then either in braces or after
the scheme, whose letters may have either case. -/
def digits? (text : List Char) : Option (List Char) :=
  if text.length = 32 then some text
  else if text.length = 36 then unhyphenate? groups text
  else if text.length = 38 ∧ text.head? = some '\x7b' ∧ text.getLast? = some '\x7d' then
    unhyphenate? groups (text.drop 1).dropLast
  else if text.length = 45 ∧ (text.take 9).map Char.toLower = scheme then
    unhyphenate? groups (text.drop 9)
  else none

/-- Letters are read in either case. -/
def ofText? (text : String) : Option QueryId := do
  let number ← Hex.number? (← digits? text.toList)
  return ⟨BitVec.ofNat 128 number⟩

end QueryId

end QueryShaping
