import Mathlib.Logic.Equiv.Basic
import QueryShaping.Proofs.Binding.Outcome
import QueryShaping.Proofs.Select.Renaming

/-!
What the log of a bind gives away. Binding commutes with renamings step by step (`bindShape_rename`).
Main statement: where sensitive data may not be logged, the log is the same under all names of
tables, columns and parameters and for all constants (`events_bindShape_rename`).
-/

namespace QueryShaping

namespace StoreFunctions

variable (functions : StoreFunctions) (f : Relabelling)

mutual
theorem fragment?_relabel : ∀ s : Shape,
    functions.fragment? (s.relabel f) = (functions.fragment? s).map (Fragment.relabel f)
  | .column _ _ type | .constant _ type => by
    simp only [Shape.relabel, fragment?]
    split <;> rfl
  | .parameter p => by
    simp only [Shape.relabel, Parameter.relabel, fragment?]
    split <;> rfl
  | .binary left _ right _ => by
    rw [Shape.relabel, fragment?, fragment?, fragment?_relabel left, fragment?_relabel right]
    cases functions.fragment? left <;> cases functions.fragment? right <;> rfl
  | .call _ args _ => by
    rw [Shape.relabel, fragment?, fragment?, fragments?_relabel args]
    cases functions.fragments? args <;> split <;> rfl
  | .construct .. | .memberInit .. | .entity .. | .attach .. | .group _ | .reference _
  | .lookup _ => rfl
theorem fragments?_relabel : ∀ ss : List Shape,
    functions.fragments? (Shape.relabelAll f ss) =
      (functions.fragments? ss).map (Fragment.relabelAll f)
  | [] => rfl
  | s :: rest => by
    rw [Shape.relabelAll, fragments?, fragments?, fragment?_relabel s, fragments?_relabel rest]
    cases functions.fragment? s <;> cases functions.fragments? rest <;> rfl
end

end StoreFunctions

namespace Step

def relabel (f : Relabelling) : Step → Step
  | recorded address fragment => recorded address (fragment.relabel f)
  | projected kind fragment slot => projected kind (fragment.relabel f) slot
  | deferred p => deferred (p.relabel f)
  | started query root => started query root
  | asked node => asked (node.relabel f)
  | outsideStore kind address => outsideStore kind address
  | boundOnServer query members => boundOnServer query members
  | fellBack kind address => fellBack kind address
  | buffered entity slot => buffered entity slot
  | boundOnClient query => boundOnClient query

theorem events_relabel {config : Config} (h : config.sensitive = false) (f : Relabelling)
    (step : Step) : (step.relabel f).events config = step.events config := by
  cases step <;> simp [relabel, events, h]

theorem recorded?_relabel (f : Relabelling) (step : Step) :
    (step.relabel f).recorded? = step.recorded?.map (Prod.map id (Fragment.relabel f)) := by
  cases step <;> rfl

end Step

namespace Trace

variable {ε α β α' β' : Type} (f : Relabelling)

/-- The same run under other names, and with another value. -/
def relabel (g : α → β) (t : Trace ε α) : Trace ε β := ⟨t.steps.map (Step.relabel f), t.result.map g⟩

theorem events_relabel {config : Config} (h : config.sensitive = false) (g : α → β)
    (t : Trace ε α) : (t.relabel f g).events config = t.events config := by
  rw [events, events, relabel, List.flatMap_map]
  exact congrArg (List.flatMap · t.steps) (funext (Step.events_relabel h f))

theorem recorded_relabel (g : α → β) (t : Trace ε α) :
    (t.relabel f g).recorded = t.recorded.map (Prod.map id (Fragment.relabel f)) := by
  rw [recorded, recorded, relabel, List.filterMap_map, List.map_filterMap]
  exact congrArg (List.filterMap · t.steps) (funext (Step.recorded?_relabel f))

theorem relabel_bind {t : Trace ε α} {k : α → Trace ε β} {k' : α' → Trace ε β'} {g : α → α'}
    {h : β → β'} (hk : ∀ x, k' (g x) = (k x).relabel f h) :
    t.relabel f g >>= k' = (t >>= k).relabel f h := by
  cases ht : t.result with
  | ok x =>
    have hr : (t.relabel f g).result = .ok (g x) := by rw [relabel, ht, Except.map]
    rw [bind_of_ok hr, bind_of_ok ht, hk]
    simp [relabel]
  | error e =>
    have hr : (t.relabel f g).result = .error e := by rw [relabel, ht, Except.map]
    rw [bind_of_error hr, bind_of_error ht]
    rfl

end Trace

namespace Pass

variable {ε α β α' β' : Type}

/-- On a relabelled select, the second pass does what the first does on the select. -/
def Commutes (f : Relabelling) (g : α → β) (p : Pass Select ε α) (p' : Pass Select ε β) : Prop :=
  ∀ s, p' (s.relabel f) = ((p s).1.relabel f g, (p s).2.relabel f)

variable {f : Relabelling} {g : α → α'} {h : β → β'}

theorem commutes_pure (g : α → β) (x : α) :
    Commutes f g (pure x : Pass Select ε α) (pure (g x)) := fun _ => rfl

theorem commutes_tell (step : Step) :
    Commutes f id (tell step : Pass Select ε Unit) (tell (step.relabel f)) := fun _ => rfl

theorem commutes_stop (g : α → β) (e : ε) :
    Commutes f g (stop e : Pass Select ε α) (stop e) := fun _ => rfl

theorem Commutes.bind {p : Pass Select ε α} {p' : Pass Select ε α'} {k : α → Pass Select ε β}
    {k' : α' → Pass Select ε β'} (hp : Commutes f g p p') (hk : ∀ x, Commutes f h (k x) (k' (g x))) :
    Commutes f h (p >>= k) (p' >>= k') := by
  intro s
  have hs' := hp s
  rcases hs : p s with ⟨⟨steps, e | x⟩, after⟩
  · rw [hs] at hs'
    rw [bind_of_error hs, bind_of_error hs']
    rfl
  · rw [hs] at hs'
    rw [bind_of_ok hs, bind_of_ok hs', hk x after]
    simp [Trace.relabel]

theorem Commutes.map {p : Pass Select ε α} {p' : Pass Select ε α'} (hp : Commutes f g p p')
    {k : α → β} {k' : α' → β'} (hk : ∀ x, k' (g x) = h (k x)) :
    Commutes f h (do return k (← p)) (do return k' (← p')) := by
  refine hp.bind fun x => ?_
  rw [hk]
  exact commutes_pure h (k x)

end Pass

namespace Binding

variable {f : Relabelling} {ρ : Renaming} {store : Store} {owner : Select}

/-- The store evaluates a relabelled shape by the relabelled fragment. -/
def Relabels (f : Relabelling) (store : Store) : Prop :=
  ∀ s, store (s.relabel f) = (store s).map (Fragment.relabel f)

theorem contains_mapping_relabel (f : Relabelling) (owner : Select) (a : Address) :
    (owner.relabel f).mapping.contains a = owner.mapping.contains a := by
  rw [OrderedMap.contains, OrderedMap.contains, Select.get?_mapping_relabel, Option.isSome_map]

theorem defect?_rename (n : Shape) :
    defect? (owner.relabel ρ) (n.relabel ρ) = defect? owner n := by
  cases n with
  | entity type buffer =>
    simp only [Shape.relabel, defect?, contains_mapping_relabel]
    rfl
  | _ => rfl

theorem check_rename (s : Shape) : check (owner.relabel ρ) (s.relabel ρ) = check owner s := by
  have hd : (defect? (owner.relabel ρ)) ∘ Shape.relabel ρ = defect? owner := funext defect?_rename
  rw [check_eq, check_eq, Shape.nodes_relabel, List.findSome?_map, hd]

namespace Server

theorem leaf_rename (hs : Relabels ρ store) (path : Address) (s : Shape) :
    leaf (owner.relabel ρ) store path (s.relabel ρ) =
      (leaf owner store path s).relabel ρ (Shape.relabel ρ) := by
  simp only [leaf, Shape.kind_relabel, Shape.type_relabel, hs s]
  cases store s <;> rfl

theorem entity_rename (path : Address) (type : String) (buffer : Reference) :
    entity (owner.relabel ρ) path type (buffer.relabel ρ) =
      (entity owner path type buffer).relabel ρ (Shape.relabel ρ) := by
  obtain ⟨query, target, bufferType⟩ := buffer
  cases target with
  | slot i => rfl
  | address a =>
    have hf : Owner.fragmentAt (owner.relabel ρ) a =
        (Owner.fragmentAt owner a).map (Fragment.relabel ρ) := owner.fragmentAt_relabel ρ a
    change (Obstacle.lift (Owner.fragmentAt (owner.relabel ρ) a) >>= fun _ => _) =
      (Obstacle.lift (Owner.fragmentAt owner a) >>= fun _ => _).relabel _ _
    rw [hf]
    cases Owner.fragmentAt owner a <;> rfl

mutual
theorem shape_rename (hs : Relabels ρ store) : ∀ (path : Address) (s : Shape),
    shape (owner.relabel ρ) store path (s.relabel ρ) =
      (shape owner store path s).relabel ρ (Shape.relabel ρ)
  | path, .construct type args => by
    rw [Shape.relabel, shape, shape, arguments_rename hs path args]
    exact Trace.relabel_bind ρ fun _ => rfl
  | path, .memberInit type args assignments => by
    rw [Shape.relabel, shape, shape, arguments_rename hs path args,
      fields_rename hs path assignments]
    exact Trace.relabel_bind ρ fun _ => Trace.relabel_bind ρ fun _ => rfl
  | path, .entity type buffer => entity_rename path type buffer
  | path, .parameter p => by
    rw [Shape.relabel, shape, shape]
    change (if p.type.isEnumerable then _ else _) = _
    by_cases hp : p.type.isEnumerable
    · rw [if_pos hp, if_pos hp]
      rfl
    · rw [if_neg hp, if_neg hp]
      exact leaf_rename hs path (.parameter p)
  | path, .constant value type => leaf_rename hs path (.constant value type)
  | path, .column table name type => leaf_rename hs path (.column table name type)
  | path, .binary left op right type => leaf_rename hs path (.binary left op right type)
  | path, .call function args type => leaf_rename hs path (.call function args type)
  | _, .attach .. | _, .group _ | _, .reference _ | _, .lookup _ => rfl
theorem arguments_rename (hs : Relabels ρ store) : ∀ (path : Address) (args : Args Shape),
    arguments (owner.relabel ρ) store path (Shape.relabelArgs ρ args) =
      (arguments owner store path args).relabel ρ (Shape.relabelArgs ρ)
  | _, .positional [] | _, .positional (_ :: _) => rfl
  | path, .named fs => by
    rw [Shape.relabelArgs, arguments, arguments, fields_rename hs path fs]
    exact Trace.relabel_bind ρ fun _ => rfl
theorem fields_rename (hs : Relabels ρ store) : ∀ (path : Address) (fs : List (Member × Shape)),
    fields (owner.relabel ρ) store path (Shape.relabelFields ρ fs) =
      (fields owner store path fs).relabel ρ (Shape.relabelFields ρ)
  | _, [] => rfl
  | path, (m, s) :: rest => by
    rw [Shape.relabelFields, fields, fields, shape_rename hs (path.child m) s,
      fields_rename hs path rest]
    exact Trace.relabel_bind ρ fun _ => Trace.relabel_bind ρ fun _ => rfl
end

end Server

namespace Client

open Pass

theorem project_rename (kind : Kind) (fragment : Fragment) (type : DataType) :
    Commutes ρ (Shape.relabel ρ) (project kind fragment type)
      (project kind (fragment.relabel ρ) type) := by
  intro s
  have hp : Owner.project (s.relabel ρ) (fragment.relabel ρ) type =
      ((Owner.project s fragment type).1, (Owner.project s fragment type).2.relabel ρ) :=
    s.project_rename ρ fragment type
  simp only [project, hp]
  rfl

theorem entity_rename (type : String) (buffer : Reference) :
    Commutes ρ (Shape.relabel ρ) (entity type buffer) (entity type (buffer.relabel ρ)) := by
  intro s
  have hp : Owner.projectBuffer (s.relabel ρ) buffer =
      ((Owner.projectBuffer s buffer).1, (Owner.projectBuffer s buffer).2.relabel ρ) :=
    s.projectBuffer_rename ρ buffer
  change entity type buffer (s.relabel ρ) = _
  simp only [entity, hp]
  rcases Owner.projectBuffer s buffer with ⟨_ | _, after⟩ <;> rfl

theorem scalar_rename (hs : Relabels ρ store) (s : Shape) {rest rest' : Pass Select Error Shape}
    (hr : Commutes ρ (Shape.relabel ρ) rest rest') :
    Commutes ρ (Shape.relabel ρ) (scalar store s rest) (scalar store (s.relabel ρ) rest') := by
  rw [scalar, scalar, Shape.kind_relabel, hs s, Shape.type_relabel]
  refine (commutes_tell (.asked s)).bind fun _ => ?_
  cases store s with
  | none => exact hr
  | some fragment => exact project_rename s.kind fragment s.type

theorem defer_rename (p : Parameter) :
    Commutes ρ (Shape.relabel ρ) (defer p) (defer (p.relabel ρ)) :=
  (commutes_tell (.deferred p)).bind fun _ => commutes_pure _ (Shape.lookup p)

mutual
theorem shape_rename (hs : Relabels ρ store) : ∀ s : Shape,
    Commutes ρ (Shape.relabel ρ) (shape store s) (shape store (s.relabel ρ))
  | .construct type args => (arguments_rename hs args).map fun _ => rfl
  | .memberInit type args assignments =>
    (arguments_rename hs args).bind fun _ => (fields_rename hs assignments).map fun _ => rfl
  | .entity type buffer => entity_rename type buffer
  | .attach e navigation value =>
    (shape_rename hs e).bind fun _ => (shape_rename hs value).map fun _ => rfl
  | .group p => commutes_pure _ (Shape.group p)
  | .parameter p => by
    rw [Shape.relabel, shape, shape]
    change Commutes _ _ _ (if p.type.isEnumerable then _ else _)
    by_cases hp : p.type.isEnumerable
    · rw [if_pos hp, if_pos hp]
      exact commutes_pure _ (Shape.parameter p)
    · rw [if_neg hp, if_neg hp]
      exact scalar_rename hs (.parameter p) (defer_rename p)
  | .constant value type => scalar_rename hs _ (commutes_pure _ (Shape.constant value type))
  | .column table name type => scalar_rename hs _ (commutes_pure _ (Shape.column table name type))
  | .binary left op right type => scalar_rename hs (.binary left op right type)
    ((shape_rename hs left).bind fun _ => (shape_rename hs right).map fun _ => rfl)
  | .call function args type => scalar_rename hs (.call function args type)
    ((shapes_rename hs args).map fun _ => rfl)
  | .reference _ => commutes_stop _ (Error.alreadyBound .reference)
  | .lookup _ => commutes_stop _ (Error.alreadyBound .lookup)
theorem arguments_rename (hs : Relabels ρ store) : ∀ args : Args Shape,
    Commutes ρ (Shape.relabelArgs ρ) (arguments store args)
      (arguments store (Shape.relabelArgs ρ args))
  | .positional values => (shapes_rename hs values).map fun _ => rfl
  | .named fs => (fields_rename hs fs).map fun _ => rfl
theorem shapes_rename (hs : Relabels ρ store) : ∀ ss : List Shape,
    Commutes ρ (Shape.relabelAll ρ) (shapes store ss) (shapes store (Shape.relabelAll ρ ss))
  | [] => commutes_pure _ []
  | s :: rest => (shape_rename hs s).bind fun _ => (shapes_rename hs rest).map fun _ => rfl
theorem fields_rename (hs : Relabels ρ store) : ∀ fs : List (Member × Shape),
    Commutes ρ (Shape.relabelFields ρ) (fields store fs)
      (fields store (Shape.relabelFields ρ fs))
  | [] => commutes_pure _ []
  | (_, s) :: rest => (shape_rename hs s).bind fun _ => (fields_rename hs rest).map fun _ => rfl
end

end Client

def Bound.relabel (f : Relabelling) (b : Bound) : Bound := ⟨b.shape.relabel f, b.mode⟩

section bind

open Pass

theorem finishServer_relabel (query : QueryId) (recorded : Mapping) (s : Shape) :
    Commutes f (Bound.relabel f) (finishServer query recorded s)
      (finishServer query (recorded.relabel f) (s.relabel f)) := by
  intro t
  have hz : (recorded.relabel f).size = recorded.size := OrderedMap.size_map _ _ recorded
  simp only [finishServer, hz]
  rfl

theorem fallBack_rename (hs : Relabels ρ store) (query : QueryId) (s : Shape) (kind : Kind)
    (path : Address) :
    Commutes ρ (Bound.relabel ρ) (fallBack query store s kind path)
      (fallBack query store (s.relabel ρ) kind path) := by
  refine (commutes_tell (.fellBack kind path)).bind fun _ => ?_
  exact (Client.shape_rename hs s).bind fun _ => fun _ => rfl

theorem recordedMapping_relabel (attempt : Trace Obstacle Shape) :
    recordedMapping (attempt.relabel f (Shape.relabel f)) = (recordedMapping attempt).relabel f := by
  rw [recordedMapping, Trace.recorded_relabel]
  exact OrderedMap.ofList_map Function.injective_id (Fragment.relabel f) attempt.recorded

theorem conclude_rename (hs : Relabels ρ store) (policy : Policy) (query : QueryId) (s : Shape)
    (attempt : Trace Obstacle Shape) :
    Commutes ρ (Bound.relabel ρ) (conclude policy query store s attempt)
      (conclude policy query store (s.relabel ρ) (attempt.relabel ρ (Shape.relabel ρ))) := by
  rw [conclude, conclude, recordedMapping_relabel]
  obtain ⟨steps, e | bound⟩ := attempt
  · cases e with
    | defect e => exact commutes_stop _ e
    | outsideStore kind path =>
      cases policy with
      | forbid => exact commutes_stop _ (Error.clientEvaluationForbidden kind path)
      | allow | warn => exact fallBack_rename hs query s kind path
  · exact finishServer_relabel query _ bound

/-- Under other names a bind takes the same steps and ends alike. -/
theorem bindShape_rename (hs : Relabels ρ store) (config : Config) (s : Shape) :
    Commutes ρ (Bound.relabel ρ) (bindShape config store s)
      (bindShape config store (s.relabel ρ)) := by
  intro owner
  simp only [bindShape, check_rename]
  cases check owner s with
  | error e => rfl
  | ok =>
    have hid : Owner.id (owner.relabel ρ) = Owner.id owner := rfl
    have hc := conclude_rename hs config.policy (Owner.id owner) s
      (Server.shape owner store .root s) owner
    simp only [hid, Shape.kind_relabel, Server.shape_rename hs, hc]
    simp [Trace.relabel, Step.relabel]

end bind

/-- Where sensitive data may not be logged, the log of a bind and of the flattening after it does not
depend on the names of tables, columns and parameters nor on the constants, whether the bind is
refused or not; the answer and the select depend on them only as names. -/
theorem events_bindShape_rename (ρ : Renaming) (functions : StoreFunctions) (policy : Policy)
    (s : Shape) (owner : Select) :
    let config : Config := { policy := policy, sensitive := false }
    let run := bindShape config functions.fragment? s owner
    let renamed := bindShape config functions.fragment? (s.relabel ρ) (owner.relabel ρ)
    renamed.1.events config = run.1.events config ∧
    renamed.2.flatten.flattened = run.2.flatten.flattened ∧
    renamed.1.result = run.1.result.map (Bound.relabel ρ) ∧
    renamed.2 = run.2.relabel ρ ∧
    renamed.2.flatten = run.2.flatten.relabel ρ := by
  intro config run renamed
  have hr : renamed = (run.1.relabel ρ (Bound.relabel ρ), run.2.relabel ρ) :=
    bindShape_rename (functions.fragment?_relabel ρ) config s owner
  have hf : renamed.2.flatten = run.2.flatten.relabel ρ := by rw [hr, Select.flatten_rename]
  refine ⟨?_, ?_, by rw [hr]; rfl, by rw [hr], hf⟩
  · rw [hr]
    exact Trace.events_relabel ρ rfl (Bound.relabel ρ) run.1
  · rw [hf, Select.flattened_relabel]

/-- Customers are called otherwise, and so are their keys and the culture. -/
def otherNames : Renaming where
  table := Equiv.swap "c" "k"
  column := Equiv.swap "Id" "Key"
  parameter := Equiv.swap "culture" "p"
  constant := Equiv.swap (.int64 1) (.int64 2)
  table_injective := Equiv.injective _
  column_injective := Equiv.injective _
  parameter_injective := Equiv.injective _
  constant_injective := Equiv.injective _

theorem events_bindShape_rename_otherNames :
    let s := customerView localName
    let run := bindShape { policy := .warn } standardStore s customers
    let renamed := bindShape { policy := .warn } standardStore (s.relabel otherNames)
      (customers.relabel otherNames)
    renamed.1.events { policy := .warn } = run.1.events { policy := .warn } ∧
      renamed.2.flatten.flattened = run.2.flatten.flattened ∧
      renamed.1.events { policy := .warn, sensitive := true } ≠
        run.1.events { policy := .warn, sensitive := true } := by
  obtain ⟨he, hf, -⟩ :=
    events_bindShape_rename otherNames .standard .warn (customerView localName) customers
  exact ⟨he, hf, by decide⟩

end Binding

end QueryShaping
