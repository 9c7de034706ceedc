import QueryShaping.Operator
import QueryShaping.Parameter
import QueryShaping.Reference
import QueryShaping.Value

/-!
Shapes: trees that say how the result of a query is put together from its rows.
-/

namespace QueryShaping

/-- Arguments of a construction, by position or each with the member that it sets. -/
inductive Args (α : Type) where
  | positional (values : List α)
  | named (fields : List (Member × α))
deriving Repr

inductive Shape where
  /-- Construction of an object. -/
  | construct (type : String) (args : Args Shape)
  /-- Construction of an object followed by assignments to its members. -/
  | memberInit (type : String) (args : Args Shape) (assignments : List (Member × Shape))
  /-- Materialisation of an entity from a value buffer. -/
  | entity (type : String) (buffer : Reference)
  /-- A related entity put into a navigation member of another. -/
  | attach (entity : Shape) (navigation : String) (value : Shape)
  | parameter (parameter : Parameter)
  /-- The group of a correlated join, which a later step fills in. -/
  | group (parameter : Parameter)
  | constant (value : Value) (type : DataType)
  | column (table name : String) (type : DataType)
  | binary (left : Shape) (op : Operator) (right : Shape) (type : DataType)
  | call (function : String) (args : List Shape) (type : DataType)
  /-- A value read from the projection. Only binding makes these. -/
  | reference (reference : Reference)
  /-- A parameter looked up when the results are put together. Only binding makes these. -/
  | lookup (parameter : Parameter)
deriving Repr

/-- Names of the constructors of shapes, for messages. -/
inductive Kind where
  | construct | memberInit | entity | attach | parameter | group | constant | column | binary
  | call | reference | lookup
deriving DecidableEq, Repr

def Kind.name : Kind → String
  | construct => "New"
  | memberInit => "MemberInit"
  | entity => "EntityShaper"
  | attach => "Include"
  | parameter => "Parameter"
  | group => "GroupPlaceholder"
  | constant => "Constant"
  | column => "Column"
  | binary => "Binary"
  | call => "Call"
  | reference => "ProjectionBinding"
  | lookup => "ParameterValue"

namespace Shape

def kind : Shape → Kind
  | construct .. => .construct
  | memberInit .. => .memberInit
  | entity .. => .entity
  | attach .. => .attach
  | parameter _ => .parameter
  | group _ => .group
  | constant .. => .constant
  | column .. => .column
  | binary .. => .binary
  | call .. => .call
  | reference _ => .reference
  | lookup _ => .lookup

/-- Attaching leaves the type of the entity as it is. -/
def type : Shape → DataType
  | construct type _ | memberInit type _ _ => .object type
  | entity type _ => .entity type
  | attach e _ _ => e.type
  | parameter p | group p | lookup p => p.type
  | constant _ type | column _ _ type | binary _ _ _ type | call _ _ type => type
  | reference r => r.type

/-- A parameter that stands for a sequence is a group. -/
def ofParameter (p : Parameter) : Shape :=
  if p.type.isEnumerable then .group p else .parameter p

/-- A literal null is a string. -/
def literal (v : Value) : Shape := .constant v (v.type?.getD .string)

end Shape

end QueryShaping
