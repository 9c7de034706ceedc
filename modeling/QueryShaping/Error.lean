import QueryShaping.Shape.Basic

/-!
Why a shape cannot be bound, a reference not read, a parameter not resolved.
-/

namespace QueryShaping

/-- What is wrong with a value buffer. -/
inductive BufferFault where
  | outOfRange (slot length : Nat)
  /-- An entity is read from an address until it is bound. -/
  | expectedAddress (entity : String)
  /-- An owner's own reason. -/
  | refused (reason : String)
deriving DecidableEq, Repr

def BufferFault.text : BufferFault → String
  | outOfRange slot length =>
    "slot " ++ toString slot ++ " is out of range for a projection of " ++ toString length ++
      " entries"
  | expectedAddress entity =>
    entity ++ " shaper reads a projection slot, expected a projection member"
  | refused reason => reason

inductive Error where
  /-- A value buffer belongs to a query other than the one that is bound. -/
  | foreignBuffer (expected actual : QueryId)
  /-- A node that only binding makes stands in its input. -/
  | alreadyBound (kind : Kind)
  | unmapped (address : Address)
  | invalidBuffer (fault : BufferFault)
  | clientEvaluationForbidden (kind : Kind) (address : Address)
  | unknownParameter (name : String)
  | typeMismatch (expected actual : DataType)
deriving DecidableEq, Repr

namespace Error

/-- The address that the error is about, for a caller who wants to point at it. -/
def address? : Error → Option Address
  | unmapped address | clientEvaluationForbidden _ address => some address
  | _ => none

/-- The message, with the queries called by the names that `call` gives them. -/
def messageWith (call : QueryId → String) : Error → String
  | foreignBuffer expected actual =>
    "Value buffer belongs to query " ++ call actual ++
      ", but the shaper is being bound against query " ++ call expected
  | alreadyBound kind => "Unexpected " ++ kind.name ++ " node in shaping tree"
  | unmapped address => "No projection registered for member " ++ address.text
  | invalidBuffer fault => "Invalid value buffer: " ++ fault.text
  | clientEvaluationForbidden kind address =>
    "Client evaluation is disabled: " ++ kind.name ++ " at " ++ address.text ++
      " cannot be translated to a store projection"
  | unknownParameter name => "Missing parameter value: " ++ name
  | typeMismatch expected actual =>
    "Type error: expected " ++ expected.text ++ ", got " ++ actual.text

def message : Error → String := messageWith QueryId.text

end Error

end QueryShaping
