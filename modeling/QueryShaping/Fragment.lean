import QueryShaping.Operator
import QueryShaping.Value

/-!
Fragments: the expressions that a store evaluates as part of a projection.
-/

namespace QueryShaping

/-- The columns of one table from which an entity is materialised, in that order. -/
structure EntityColumns where
  entity : String
  table : String
  columns : List (String × DataType)
deriving DecidableEq, Hashable, Repr

inductive Fragment where
  | column (table name : String) (type : DataType)
  | constant (value : Value) (type : DataType)
  | parameter (name : String) (type : DataType)
  | binary (left : Fragment) (op : Operator) (right : Fragment) (type : DataType)
  | call (function : String) (args : List Fragment) (type : DataType)
  | entity (columns : EntityColumns)
deriving Hashable, Repr

namespace Fragment

/-- An entity is read from a part of the row. -/
def type : Fragment → DataType
  | column _ _ type | constant _ type | parameter _ type | binary _ _ _ type | call _ _ type => type
  | entity _ => .valueBuffer

mutual
def same : Fragment → Fragment → Bool
  | column t n d, column t' n' d' => t = t' && n = n' && d = d'
  | constant v d, constant v' d' => v = v' && d = d'
  | parameter n d, parameter n' d' => n = n' && d = d'
  | binary l o r d, binary l' o' r' d' => same l l' && o = o' && same r r' && d = d'
  | call f a d, call f' a' d' => f = f' && sameAll a a' && d = d'
  | entity c, entity c' => c = c'
  | _, _ => false
def sameAll : List Fragment → List Fragment → Bool
  | [], [] => true
  | a :: as, b :: bs => same a b && sameAll as bs
  | _, _ => false
end

mutual
theorem same_iff : ∀ a b : Fragment, same a b = true ↔ a = b
  | column .., b => by cases b <;> simp [same, and_assoc]
  | constant .., b => by cases b <;> simp [same]
  | parameter .., b => by cases b <;> simp [same]
  | binary l o r d, b => by cases b <;> simp [same, same_iff l, same_iff r, and_assoc]
  | call f a d, b => by cases b <;> simp [same, sameAll_iff a, and_assoc]
  | entity .., b => by cases b <;> simp [same]
theorem sameAll_iff : ∀ as bs : List Fragment, sameAll as bs = true ↔ as = bs
  | [], bs => by cases bs <;> simp [sameAll]
  | a :: as, bs => by cases bs <;> simp [sameAll, same_iff a, sameAll_iff as]
end

instance : DecidableEq Fragment := fun a b => decidable_of_iff _ (same_iff a b)

end Fragment

def columnText (table name : String) : String := "\"" ++ table ++ "\".\"" ++ name ++ "\""

def EntityColumns.text (e : EntityColumns) : String :=
  ", ".intercalate (e.columns.map fun c => columnText e.table c.1)

namespace Fragment

mutual
/-- Names are written as they are: a quote inside one is not doubled. -/
def text : Fragment → String
  | column table name _ => columnText table name
  | constant value _ => value.text
  | parameter name _ => "@" ++ name
  | binary left op right _ => "(" ++ left.text ++ " " ++ op.symbol ++ " " ++ right.text ++ ")"
  | call function args _ => function ++ "(" ++ ", ".intercalate (texts args) ++ ")"
  | entity columns => columns.text
def texts : List Fragment → List String
  | [] => []
  | f :: fs => f.text :: texts fs
end

end Fragment

end QueryShaping
