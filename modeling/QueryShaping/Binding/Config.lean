/-!
Settings of binding.
-/

namespace QueryShaping

/-- What to do with a shape that the store cannot evaluate as a whole. -/
inductive Policy where
  | allow | warn | forbid
deriving DecidableEq, Repr, Inhabited

structure Config where
  policy : Policy := .allow
  /-- Fragments and parameter names may be logged. -/
  sensitive : Bool := false
deriving DecidableEq, Repr, Inhabited

end QueryShaping
