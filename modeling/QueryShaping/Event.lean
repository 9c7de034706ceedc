import QueryShaping.QueryId

/-!
Log events.
-/

namespace QueryShaping

inductive Level where
  | trace | debug | warn
deriving DecidableEq, Repr

def Level.name : Level → String
  | trace => "TRACE"
  | debug => "DEBUG"
  | warn => "WARN"

inductive Detail where
  | count (n : Nat)
  | text (s : String)
  | query (id : QueryId)
deriving DecidableEq, Repr

structure Event where
  level : Level
  message : String
  fields : List (String × Detail)
deriving DecidableEq, Repr

end QueryShaping
