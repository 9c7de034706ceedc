import QueryShaping.Binding.Owner
import QueryShaping.Binding.Trace
import QueryShaping.Store

/-!
Binding for evaluation on the client: the largest parts that have a fragment become references to
slots, and the rest of the shape stays as it is.
-/

namespace QueryShaping.Binding.Client

variable {σ : Type} [Owner σ]

/-- Replaces a node by a reference to the slot of its fragment. -/
def project (kind : Kind) (fragment : Fragment) (type : DataType) : Pass σ Error Shape :=
  fun owner =>
    let (slot, owner) := Owner.project owner fragment type
    (⟨[.projected kind fragment slot], .ok (.reference ⟨Owner.id owner, .slot slot, type⟩)⟩, owner)

/-- Lets an entity read the slot of the fragment behind its buffer. -/
def entity (type : String) (buffer : Reference) : Pass σ Error Shape := fun owner =>
  match Owner.projectBuffer owner buffer with
  | (.ok slot, after) =>
    (⟨[.buffered type slot], .ok (.entity type ⟨Owner.id owner, .slot slot, .valueBuffer⟩)⟩, after)
  | (.error e, after) => (.stop e, after)

/-- Asks about a scalar; one without a fragment is left to `rest`. -/
def scalar (store : Store) (s : Shape) (rest : Pass σ Error Shape) : Pass σ Error Shape := do
  Pass.tell (.asked s)
  match store s with
  | some fragment => project s.kind fragment s.type
  | none => rest

/-- Leaves a parameter to the parameter store. -/
def defer (p : Parameter) : Pass σ Error Shape := do
  Pass.tell (.deferred p)
  return .lookup p

mutual
def shape (store : Store) : Shape → Pass σ Error Shape
  | .construct type args => return .construct type (← arguments store args)
  | .memberInit type args assignments => do
    let args ← arguments store args
    let assignments ← fields store assignments
    return .memberInit type args assignments
  | .entity type buffer => entity type buffer
  | .attach e navigation value => do
    let e ← shape store e
    let value ← shape store value
    return .attach e navigation value
  | .group p => return .group p
  | .parameter p =>
    if p.type.isEnumerable then return .parameter p else scalar store (.parameter p) (defer p)
  | .constant value type =>
    scalar store (.constant value type) (return .constant value type)
  | .column table name type =>
    scalar store (.column table name type) (return .column table name type)
  | .binary left op right type => scalar store (.binary left op right type) do
    let left ← shape store left
    let right ← shape store right
    return .binary left op right type
  | .call function args type => scalar store (.call function args type) do
    let args ← shapes store args
    return .call function args type
  | .reference _ => Pass.stop (.alreadyBound .reference)
  | .lookup _ => Pass.stop (.alreadyBound .lookup)
def arguments (store : Store) : Args Shape → Pass σ Error (Args Shape)
  | .positional values => return .positional (← shapes store values)
  | .named members => return .named (← fields store members)
def shapes (store : Store) : List Shape → Pass σ Error (List Shape)
  | [] => return []
  | s :: rest => do
    let s ← shape store s
    let rest ← shapes store rest
    return s :: rest
def fields (store : Store) : List (Member × Shape) → Pass σ Error (List (Member × Shape))
  | [] => return []
  | (m, s) :: rest => do
    let s ← shape store s
    let rest ← fields store rest
    return (m, s) :: rest
end

end QueryShaping.Binding.Client
