import QueryShaping.Fragment
import QueryShaping.Shape.Basic

/-!
Stores, and the fragments by which they evaluate scalar shapes.
-/

namespace QueryShaping

/-- A store, as binding sees it: the fragment by which it evaluates a shape, if it can. -/
abbrev Store := Shape → Option Fragment

/-- Upper case of the Latin letters without marks; all other characters stay. -/
def upperCase (name : String) : String := String.ofList (name.toList.map Char.toUpper)

/-- The functions that a store evaluates, by their names in upper case. -/
structure StoreFunctions where
  names : List String
deriving DecidableEq, Repr

namespace StoreFunctions

/-- The functions that every store has. -/
def standardNames : List String := ["ABS", "COALESCE", "LENGTH", "LOWER", "ROUND", "TRIM", "UPPER"]

def standard : StoreFunctions := ⟨standardNames⟩

def empty : StoreFunctions := ⟨[]⟩

def register (f : StoreFunctions) (name : String) : StoreFunctions := ⟨upperCase name :: f.names⟩

def registerAll (f : StoreFunctions) (names : List String) : StoreFunctions :=
  names.foldl register f

/-- The case of a name does not matter. -/
def knows (f : StoreFunctions) (name : String) : Bool := f.names.contains (upperCase name)

mutual
/-- Columns, constants and parameters of store types have a fragment; operations and calls have one
when all their operands do and the store knows the function. -/
def fragment? (f : StoreFunctions) : Shape → Option Fragment
  | .column table name type => if type.isStore then some (.column table name type) else none
  | .constant value type => if type.isStore then some (.constant value type) else none
  | .parameter p => if p.type.isStore then some (.parameter p.name p.type) else none
  | .binary left op right type => do
    let left ← fragment? f left
    let right ← fragment? f right
    return .binary left op right type
  | .call function args type =>
    if f.knows function then do
      let args ← fragments? f args
      return .call (upperCase function) args type
    else none
  | .construct .. | .memberInit .. | .entity .. | .attach .. | .group _ | .reference _
  | .lookup _ => none
def fragments? (f : StoreFunctions) : List Shape → Option (List Fragment)
  | [] => some []
  | s :: rest => do
    let fragment ← fragment? f s
    let fragments ← fragments? f rest
    return fragment :: fragments
end

end StoreFunctions

end QueryShaping
