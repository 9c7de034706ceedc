import QueryShaping.Binding.Client
import QueryShaping.Binding.Server
import QueryShaping.Shape.Equality

/-!
Binding a shape against the owner of a projection: on the server if the store can evaluate all of
it, else for evaluation on the client if the policy allows that.
-/

namespace QueryShaping

/-- Who computes the values of a bound shape. -/
inductive Mode where
  | server | client
deriving DecidableEq, Repr

structure Bound where
  shape : Shape
  mode : Mode
deriving DecidableEq, Repr

namespace Binding

variable {σ : Type} [Owner σ]

/-- Ends a server pass: what it recorded becomes the mapping. -/
def finishServer (query : QueryId) (recorded : Mapping) (s : Shape) : Pass σ Error Bound := do
  Pass.tell (.boundOnServer query recorded.size)
  Pass.update (Owner.install · recorded)
  return ⟨s, .server⟩

/-- Binds the shape anew on the client; nothing stays mapped. -/
def fallBack (query : QueryId) (store : Store) (s : Shape) (kind : Kind) (path : Address) :
    Pass σ Error Bound := do
  Pass.tell (.fellBack kind path)
  let s ← Client.shape store s
  Pass.update (Owner.install · ∅)
  Pass.tell (.boundOnClient query)
  return ⟨s, .client⟩

/-- Goes on from a server pass according to its result. -/
def conclude (policy : Policy) (query : QueryId) (store : Store) (s : Shape)
    (attempt : Trace Obstacle Shape) : Pass σ Error Bound :=
  match attempt.result with
  | .ok bound => finishServer query (recordedMapping attempt) bound
  | .error (.defect e) => Pass.stop e
  | .error (.outsideStore kind path) =>
    match policy with
    | .forbid => Pass.stop (.clientEvaluationForbidden kind path)
    | .allow | .warn => fallBack query store s kind path

end Binding

/-- The owner's mapping is replaced once, at the end, and not at all if an error is answered. -/
def bindShape {σ : Type} [Owner σ] (config : Config) (store : Store) (s : Shape) :
    Pass σ Error Bound := fun owner =>
  match Binding.check owner s with
  | .error e => (.stop e, owner)
  | .ok () =>
    let query := Owner.id owner
    let attempt := Binding.Server.shape owner store .root s
    let (rest, owner) := Binding.conclude config.policy query store s attempt owner
    (⟨.started query s.kind :: attempt.steps ++ rest.steps, rest.result⟩, owner)

end QueryShaping
