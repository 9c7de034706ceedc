import QueryShaping.Fragment
import QueryShaping.Proofs.Shape.Nodes

/-!
Relabellings: other names, constants and references in the place of those of a shape or a fragment.
Main statements: a shape keeps its kind and its type (`kind_relabel`, `type_relabel`), its nodes are
relabelled one by one (`nodes_relabel`), and two relabellings make one (`relabel_relabel`).
-/

namespace QueryShaping

/-- What stands for the names, the constants and the references of a query. Types, functions and
members are kept. -/
structure Relabelling where
  table : String → String := id
  column : String → String := id
  parameter : String → String := id
  constant : Value → Value := id
  query : QueryId → QueryId := id
  target : Target → Target := id

/-- One relabelling after another. -/
def Relabelling.andThen (f g : Relabelling) : Relabelling where
  table := g.table ∘ f.table
  column := g.column ∘ f.column
  parameter := g.parameter ∘ f.parameter
  constant := g.constant ∘ f.constant
  query := g.query ∘ f.query
  target := g.target ∘ f.target

variable (f : Relabelling)

def Parameter.relabel (p : Parameter) : Parameter := ⟨f.parameter p.name, p.type⟩

def Reference.relabel (r : Reference) : Reference := ⟨f.query r.query, f.target r.target, r.type⟩

def EntityColumns.relabel (e : EntityColumns) : EntityColumns :=
  ⟨e.entity, f.table e.table, e.columns.map fun c => (f.column c.1, c.2)⟩

namespace Fragment

mutual
def relabel : Fragment → Fragment
  | column table name type => .column (f.table table) (f.column name) type
  | constant value type => .constant (f.constant value) type
  | parameter name type => .parameter (f.parameter name) type
  | binary left op right type => .binary (relabel left) op (relabel right) type
  | call function args type => .call function (relabelAll args) type
  | entity columns => .entity (columns.relabel f)
def relabelAll : List Fragment → List Fragment
  | [] => []
  | a :: rest => relabel a :: relabelAll rest
end

theorem type_relabel (a : Fragment) : (a.relabel f).type = a.type := by
  cases a <;> rfl

end Fragment

namespace Shape

mutual
def relabel : Shape → Shape
  | .construct type args => .construct type (relabelArgs args)
  | .memberInit type args assignments =>
    .memberInit type (relabelArgs args) (relabelFields assignments)
  | .entity type buffer => .entity type (buffer.relabel f)
  | .attach e navigation value => .attach (relabel e) navigation (relabel value)
  | .parameter p => .parameter (p.relabel f)
  | .group p => .group (p.relabel f)
  | .constant value type => .constant (f.constant value) type
  | .column table name type => .column (f.table table) (f.column name) type
  | .binary left op right type => .binary (relabel left) op (relabel right) type
  | .call function args type => .call function (relabelAll args) type
  | .reference r => .reference (r.relabel f)
  | .lookup p => .lookup (p.relabel f)
def relabelArgs : Args Shape → Args Shape
  | .positional values => .positional (relabelAll values)
  | .named fields => .named (relabelFields fields)
def relabelAll : List Shape → List Shape
  | [] => []
  | s :: rest => relabel s :: relabelAll rest
def relabelFields : List (Member × Shape) → List (Member × Shape)
  | [] => []
  | (m, s) :: rest => (m, relabel s) :: relabelFields rest
end

theorem kind_relabel (s : Shape) : (s.relabel f).kind = s.kind := by
  cases s <;> rfl

theorem type_relabel : ∀ s : Shape, (s.relabel f).type = s.type
  | .attach e _ _ => type_relabel e
  | .construct .. | .memberInit .. | .entity .. | .parameter _ | .group _ | .constant ..
  | .column .. | .binary .. | .call .. | .reference _ | .lookup _ => rfl

mutual
theorem nodes_relabel : ∀ s : Shape, (s.relabel f).nodes = s.nodes.map (relabel f)
  | .construct _ args => by
    rw [relabel, nodes, nodes, List.map_cons, nodes_relabelArgs args, relabel]
  | .memberInit _ args assignments => by
    rw [relabel, nodes, nodes, List.map_cons, List.map_append, nodes_relabelArgs args,
      nodes_relabelFields assignments, relabel]
  | .attach e _ value => by
    rw [relabel, nodes, nodes, List.map_cons, List.map_append, nodes_relabel e,
      nodes_relabel value, relabel]
  | .binary left _ right _ => by
    rw [relabel, nodes, nodes, List.map_cons, List.map_append, nodes_relabel left,
      nodes_relabel right, relabel]
  | .call _ args _ => by
    rw [relabel, nodes, nodes, List.map_cons, nodes_relabelAll args, relabel]
  | .entity .. | .parameter _ | .group _ | .constant .. | .column .. | .reference _
  | .lookup _ => rfl
theorem nodes_relabelArgs : ∀ args : Args Shape,
    nodesArgs (relabelArgs f args) = (nodesArgs args).map (relabel f)
  | .positional values => nodes_relabelAll values
  | .named fields => nodes_relabelFields fields
theorem nodes_relabelAll : ∀ ss : List Shape,
    nodesAll (relabelAll f ss) = (nodesAll ss).map (relabel f)
  | [] => rfl
  | s :: rest => by
    rw [relabelAll, nodesAll, nodesAll, List.map_append, nodes_relabel s, nodes_relabelAll rest]
theorem nodes_relabelFields : ∀ fs : List (Member × Shape),
    nodesFields (relabelFields f fs) = (nodesFields fs).map (relabel f)
  | [] => rfl
  | (_, s) :: rest => by
    rw [relabelFields, nodesFields, nodesFields, List.map_append, nodes_relabel s,
      nodes_relabelFields rest]
end

theorem reference?_relabel (s : Shape) :
    (s.relabel f).reference? = s.reference?.map (Reference.relabel f) := by
  cases s <;> rfl

theorem references_relabel (s : Shape) :
    (s.relabel f).references = s.references.map (Reference.relabel f) := by
  rw [references_eq, references_eq, nodes_relabel, List.filterMap_map, List.map_filterMap]
  exact congrArg (List.filterMap · s.nodes) (funext (reference?_relabel f))

mutual
/-- A shape keeps its queries if all its references do. -/
theorem relabel_query_eq_self (q : QueryId → QueryId) : ∀ s : Shape,
    (∀ r ∈ s.references, q r.query = r.query) → s.relabel { query := q } = s
  | .construct _ args, h => by rw [relabel, relabelArgs_query_eq_self q args h]
  | .memberInit _ args assignments, h => by
    obtain ⟨ha, hf⟩ := List.forall_mem_append.mp h
    rw [relabel, relabelArgs_query_eq_self q args ha, relabelFields_query_eq_self q assignments hf]
  | .attach e _ value, h => by
    obtain ⟨he, hv⟩ := List.forall_mem_append.mp h
    rw [relabel, relabel_query_eq_self q e he, relabel_query_eq_self q value hv]
  | .binary left _ right _, h => by
    obtain ⟨hl, hr⟩ := List.forall_mem_append.mp h
    rw [relabel, relabel_query_eq_self q left hl, relabel_query_eq_self q right hr]
  | .call _ args _, h => by rw [relabel, relabelAll_query_eq_self q args h]
  | .entity type r, h => by
    have hr := h r (List.mem_singleton_self r)
    exact congrArg (fun q => Shape.entity type ⟨q, r.target, r.type⟩) hr
  | .reference r, h => by
    have hr := h r (List.mem_singleton_self r)
    exact congrArg (fun q => Shape.reference ⟨q, r.target, r.type⟩) hr
  | .parameter _, _ | .group _, _ | .constant .., _ | .column .., _ | .lookup _, _ => rfl
theorem relabelArgs_query_eq_self (q : QueryId → QueryId) : ∀ args : Args Shape,
    (∀ r ∈ referencesArgs args, q r.query = r.query) → relabelArgs { query := q } args = args
  | .positional values, h => congrArg Args.positional (relabelAll_query_eq_self q values h)
  | .named fields, h => congrArg Args.named (relabelFields_query_eq_self q fields h)
theorem relabelAll_query_eq_self (q : QueryId → QueryId) : ∀ ss : List Shape,
    (∀ r ∈ referencesAll ss, q r.query = r.query) → relabelAll { query := q } ss = ss
  | [], _ => rfl
  | s :: rest, h => by
    obtain ⟨hs, hr⟩ := List.forall_mem_append.mp h
    rw [relabelAll, relabel_query_eq_self q s hs, relabelAll_query_eq_self q rest hr]
theorem relabelFields_query_eq_self (q : QueryId → QueryId) : ∀ fs : List (Member × Shape),
    (∀ r ∈ referencesFields fs, q r.query = r.query) → relabelFields { query := q } fs = fs
  | [], _ => rfl
  | (_, s) :: rest, h => by
    obtain ⟨hs, hr⟩ := List.forall_mem_append.mp h
    rw [relabelFields, relabel_query_eq_self q s hs, relabelFields_query_eq_self q rest hr]
end

variable (g : Relabelling)

mutual
theorem relabel_relabel : ∀ s : Shape, (s.relabel f).relabel g = s.relabel (f.andThen g)
  | .construct _ args => by rw [relabel, relabel, relabel, relabelArgs_relabelArgs args]
  | .memberInit _ args assignments => by
    rw [relabel, relabel, relabel, relabelArgs_relabelArgs args,
      relabelFields_relabelFields assignments]
  | .attach e _ value => by
    rw [relabel, relabel, relabel, relabel_relabel e, relabel_relabel value]
  | .binary left _ right _ => by
    rw [relabel, relabel, relabel, relabel_relabel left, relabel_relabel right]
  | .call _ args _ => by rw [relabel, relabel, relabel, relabelAll_relabelAll args]
  | .entity .. | .parameter _ | .group _ | .constant .. | .column .. | .reference _
  | .lookup _ => rfl
theorem relabelArgs_relabelArgs : ∀ args : Args Shape,
    relabelArgs g (relabelArgs f args) = relabelArgs (f.andThen g) args
  | .positional values => congrArg Args.positional (relabelAll_relabelAll values)
  | .named fields => congrArg Args.named (relabelFields_relabelFields fields)
theorem relabelAll_relabelAll : ∀ ss : List Shape,
    relabelAll g (relabelAll f ss) = relabelAll (f.andThen g) ss
  | [] => rfl
  | s :: rest => by
    rw [relabelAll, relabelAll, relabelAll, relabel_relabel s, relabelAll_relabelAll rest]
theorem relabelFields_relabelFields : ∀ fs : List (Member × Shape),
    relabelFields g (relabelFields f fs) = relabelFields (f.andThen g) fs
  | [] => rfl
  | (_, s) :: rest => by
    rw [relabelFields, relabelFields, relabelFields, relabel_relabel s,
      relabelFields_relabelFields rest]
end

end Shape

end QueryShaping
