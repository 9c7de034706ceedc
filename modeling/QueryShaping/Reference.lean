import QueryShaping.Address
import QueryShaping.DataType
import QueryShaping.QueryId

/-!
References into the projection of a query.
-/

namespace QueryShaping

/-- What a reference reads: the fragment mapped at an address, or a slot of the projection. -/
inductive Target where
  | address (address : Address)
  | slot (index : Nat)
deriving DecidableEq, Hashable, Repr

/-- A reference names its query, so that no other query answers it. -/
structure Reference where
  query : QueryId
  target : Target
  type : DataType
deriving DecidableEq, Hashable, Repr

namespace Reference

def address? (r : Reference) : Option Address :=
  match r.target with
  | .address a => some a
  | .slot _ => none

def slot? (r : Reference) : Option Nat :=
  match r.target with
  | .slot i => some i
  | .address _ => none

end Reference

end QueryShaping
