/-!
Binary operators of shapes and fragments.
-/

namespace QueryShaping

inductive Operator where
  | add | sub | mul | div | mod
  | eq | neq | lt | lte | gt | gte
  | and | or
deriving DecidableEq, Hashable, Repr

namespace Operator

def symbol : Operator → String
  | add => "+"
  | sub => "-"
  | mul => "*"
  | div => "/"
  | mod => "%"
  | eq => "="
  | neq => "<>"
  | lt => "<"
  | lte => "<="
  | gt => ">"
  | gte => ">="
  | and => "AND"
  | or => "OR"

end Operator

end QueryShaping
