import QueryShaping.Binding.Check
import QueryShaping.Binding.Trace
import QueryShaping.Store

/-!
Binding on the server: every leaf becomes a reference to the address at which its fragment is
recorded. The pass stops at the first node that has no fragment or no address.
-/

namespace QueryShaping.Binding

/-- Why the pass stops. -/
inductive Obstacle where
  | defect (error : Error)
  | outsideStore (kind : Kind) (address : Address)
deriving DecidableEq, Repr

/-- Stops at a node that the store cannot evaluate. -/
def outsideStore {α : Type} (kind : Kind) (path : Address) : Trace Obstacle α :=
  ⟨[.outsideStore kind path], .error (.outsideStore kind path)⟩

def Obstacle.lift {α : Type} (x : Except Error α) : Trace Obstacle α :=
  ⟨[], x.mapError .defect⟩

variable {σ : Type} [Owner σ]

namespace Server

/-- Records a fragment and answers a reference to it. -/
def record (owner : σ) (path : Address) (fragment : Fragment) (type : DataType) :
    Trace Obstacle Reference :=
  ⟨[.recorded path fragment], .ok ⟨Owner.id owner, .address path, type⟩⟩

/-- Asks about a scalar and records its fragment where it stands. -/
def leaf (owner : σ) (store : Store) (path : Address) (s : Shape) : Trace Obstacle Shape := do
  Trace.tell (.asked s)
  match store s with
  | some fragment => return .reference (← record owner path fragment s.type)
  | none => outsideStore s.kind path

/-- The fragment behind the entity's buffer is recorded again where the entity now stands. -/
def entity (owner : σ) (path : Address) (type : String) (buffer : Reference) :
    Trace Obstacle Shape := do
  let fragment ← Obstacle.lift (source type buffer >>= Owner.fragmentAt owner)
  return .entity type (← record owner path fragment .valueBuffer)

mutual
def shape (owner : σ) (store : Store) (path : Address) : Shape → Trace Obstacle Shape
  | .construct type args => return .construct type (← arguments owner store path args)
  | .memberInit type args assignments => do
    let args ← arguments owner store path args
    let assignments ← fields owner store path assignments
    return .memberInit type args assignments
  | .entity type buffer => entity owner path type buffer
  | .attach .. => outsideStore .attach path
  | .group p => return .group p
  | .parameter p =>
    if p.type.isEnumerable then return .parameter p else leaf owner store path (.parameter p)
  | .constant value type => leaf owner store path (.constant value type)
  | .column table name type => leaf owner store path (.column table name type)
  | .binary left op right type => leaf owner store path (.binary left op right type)
  | .call function args type => leaf owner store path (.call function args type)
  | .reference _ => Trace.stop (.defect (.alreadyBound .reference))
  | .lookup _ => Trace.stop (.defect (.alreadyBound .lookup))
/-- Arguments by position have no addresses. -/
def arguments (owner : σ) (store : Store) (path : Address) :
    Args Shape → Trace Obstacle (Args Shape)
  | .positional [] => return .positional []
  | .positional (_ :: _) => outsideStore .construct path
  | .named members => return .named (← fields owner store path members)
def fields (owner : σ) (store : Store) (path : Address) :
    List (Member × Shape) → Trace Obstacle (List (Member × Shape))
  | [] => return []
  | (m, s) :: rest => do
    let s ← shape owner store (path.child m) s
    let rest ← fields owner store path rest
    return (m, s) :: rest
end

end Server

/-- The mapping that a pass recorded: the last fragment at an address counts. -/
def recordedMapping (attempt : Trace Obstacle Shape) : Mapping := .ofList attempt.recorded

end QueryShaping.Binding
