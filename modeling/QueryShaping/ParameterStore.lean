import QueryShaping.Error
import QueryShaping.OrderedMap

/-!
The parameter values of one execution, and the look-ups that client evaluation leaves to it.
-/

namespace QueryShaping

abbrev ParameterStore := OrderedMap String Value

namespace ParameterStore

def set (store : ParameterStore) (name : String) (value : Value) : ParameterStore :=
  store.insert name value

/-- A value must have the type that is asked for; null has every type. -/
def resolve (store : ParameterStore) (p : Parameter) : Except Error Value :=
  match store.get? p.name with
  | none => .error (.unknownParameter p.name)
  | some value =>
    match value.type? with
    | none => .ok value
    | some actual => if actual = p.type then .ok value else .error (.typeMismatch p.type actual)

end ParameterStore

end QueryShaping
