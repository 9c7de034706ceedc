/-!
Addresses: the place of a value in the result of a query, as the members that lead to it.
-/

namespace QueryShaping

/-- A member of a result type. Members of one name but of different types are different. -/
structure Member where
  declaringType : String
  name : String
deriving DecidableEq, Hashable, Repr

def Member.text (m : Member) : String := m.declaringType ++ "." ++ m.name

/-- The members from the root to a value. -/
abbrev Address := List Member

namespace Address

def root : Address := []

def child (a : Address) (m : Member) : Address := a ++ [m]

def depth (a : Address) : Nat := a.length

/-- An address is written without the declaring types. -/
def text : Address → String
  | [] => "<root>"
  | a => ".".intercalate (a.map Member.name)

end Address

end QueryShaping
