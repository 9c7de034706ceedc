import QueryShaping.DataType

/-!
Parameters of a query.
-/

namespace QueryShaping

structure Parameter where
  name : String
  type : DataType
deriving DecidableEq, Hashable, Repr

end QueryShaping
