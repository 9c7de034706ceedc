import QueryShaping.Shape.Basic

/-!
The parts of a shape, and the references in it from left to right.
-/

namespace QueryShaping

def Args.values {α : Type} : Args α → List α
  | .positional values => values
  | .named fields => fields.map Prod.snd

namespace Shape

/-- Direct parts, in the order in which every traversal meets them. -/
def children : Shape → List Shape
  | construct _ args => args.values
  | memberInit _ args assignments => args.values ++ assignments.map Prod.snd
  | attach e _ value => [e, value]
  | binary left _ right _ => [left, right]
  | call _ args _ => args
  | entity .. | parameter _ | group _ | constant .. | column .. | reference _ | lookup _ => []

mutual
/-- The value buffers of entities count as references. -/
def references : Shape → List Reference
  | construct _ args => referencesArgs args
  | memberInit _ args assignments => referencesArgs args ++ referencesFields assignments
  | entity _ buffer => [buffer]
  | attach e _ value => references e ++ references value
  | binary left _ right _ => references left ++ references right
  | call _ args _ => referencesAll args
  | reference r => [r]
  | parameter _ | group _ | constant .. | column .. | lookup _ => []
def referencesArgs : Args Shape → List Reference
  | .positional values => referencesAll values
  | .named fields => referencesFields fields
def referencesAll : List Shape → List Reference
  | [] => []
  | s :: rest => references s ++ referencesAll rest
def referencesFields : List (Member × Shape) → List Reference
  | [] => []
  | (_, s) :: rest => references s ++ referencesFields rest
end

end Shape

end QueryShaping
