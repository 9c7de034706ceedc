import QueryShaping.Shape.Traversal

/-!
The nodes of a shape, each before its parts and the parts from left to right, the members that its
constructions name, and the addresses that it reads.
-/

namespace QueryShaping

def Args.members {α : Type} : Args α → List Member
  | .positional _ => []
  | .named fields => fields.map Prod.fst

namespace Shape

mutual
def nodes : Shape → List Shape
  | s@(.construct _ args) => s :: nodesArgs args
  | s@(.memberInit _ args assignments) => s :: (nodesArgs args ++ nodesFields assignments)
  | s@(.attach e _ value) => s :: (nodes e ++ nodes value)
  | s@(.binary left _ right _) => s :: (nodes left ++ nodes right)
  | s@(.call _ args _) => s :: nodesAll args
  | s@(.entity ..) | s@(.parameter _) | s@(.group _) | s@(.constant ..) | s@(.column ..)
  | s@(.reference _) | s@(.lookup _) => [s]
def nodesArgs : Args Shape → List Shape
  | .positional values => nodesAll values
  | .named fields => nodesFields fields
def nodesAll : List Shape → List Shape
  | [] => []
  | s :: rest => nodes s ++ nodesAll rest
def nodesFields : List (Member × Shape) → List Shape
  | [] => []
  | (_, s) :: rest => nodes s ++ nodesFields rest
end

theorem nodesAll_eq (ss : List Shape) : nodesAll ss = ss.flatMap nodes := by
  induction ss with
  | nil => rfl
  | cons s ss ih => rw [nodesAll, ih, List.flatMap_cons]

theorem nodesFields_eq (fs : List (Member × Shape)) :
    nodesFields fs = (fs.map Prod.snd).flatMap nodes := by
  induction fs with
  | nil => rfl
  | cons f fs ih => rw [nodesFields, ih, List.map_cons, List.flatMap_cons]

theorem nodesArgs_eq (args : Args Shape) : nodesArgs args = args.values.flatMap nodes := by
  cases args with
  | positional values => exact nodesAll_eq values
  | named fields => exact nodesFields_eq fields

/-- The nodes are the shape itself and then the nodes of its direct parts. -/
theorem nodes_eq (s : Shape) : s.nodes = s :: s.children.flatMap nodes := by
  cases s with
  | construct type args => rw [nodes, nodesArgs_eq, children]
  | memberInit type args assignments =>
    rw [nodes, nodesArgs_eq, nodesFields_eq, children, List.flatMap_append]
  | call function args type => rw [nodes, nodesAll_eq, children]
  | attach | binary => simp [nodes, children]
  | entity | parameter | group | constant | column | reference | lookup => rfl

theorem self_mem_nodes (s : Shape) : s ∈ s.nodes := by
  cases s <;> simp [nodes]

/-- The reference that a node reads, its parts aside. -/
def reference? : Shape → Option Reference
  | .entity _ buffer => some buffer
  | .reference r => some r
  | .construct .. | .memberInit .. | .attach .. | .parameter _ | .group _ | .constant ..
  | .column .. | .binary .. | .call .. | .lookup _ => none

/-- The buffer that a node is materialised from. -/
def buffer? : Shape → Option Reference
  | .entity _ buffer => some buffer
  | .construct .. | .memberInit .. | .attach .. | .parameter _ | .group _ | .constant ..
  | .column .. | .binary .. | .call .. | .reference _ | .lookup _ => none

mutual
theorem references_eq : ∀ s : Shape, s.references = s.nodes.filterMap reference?
  | .construct _ args => referencesArgs_eq args
  | .memberInit _ args assignments => by
    rw [references, referencesArgs_eq args, referencesFields_eq assignments,
      ← List.filterMap_append]
    rfl
  | .attach e _ value => by
    rw [references, references_eq e, references_eq value, ← List.filterMap_append]
    rfl
  | .binary left _ right _ => by
    rw [references, references_eq left, references_eq right, ← List.filterMap_append]
    rfl
  | .call _ args _ => referencesAll_eq args
  | .entity .. | .parameter _ | .group _ | .constant .. | .column .. | .reference _
  | .lookup _ => rfl
theorem referencesArgs_eq : ∀ args : Args Shape,
    referencesArgs args = (nodesArgs args).filterMap reference?
  | .positional values => referencesAll_eq values
  | .named fields => referencesFields_eq fields
theorem referencesAll_eq : ∀ ss : List Shape,
    referencesAll ss = (nodesAll ss).filterMap reference?
  | [] => rfl
  | s :: rest => by
    rw [referencesAll, nodesAll, references_eq s, referencesAll_eq rest, List.filterMap_append]
theorem referencesFields_eq : ∀ fs : List (Member × Shape),
    referencesFields fs = (nodesFields fs).filterMap reference?
  | [] => rfl
  | (_, s) :: rest => by
    rw [referencesFields, nodesFields, references_eq s, referencesFields_eq rest,
      List.filterMap_append]
end

theorem buffer_mem_references {s : Shape} {type : String} {buffer : Reference}
    (h : .entity type buffer ∈ s.nodes) : buffer ∈ s.references := by
  rw [references_eq]
  exact List.mem_filterMap.mpr ⟨_, h, rfl⟩

/-- The addresses that a shape reads, from left to right. -/
def sources (s : Shape) : List Address := s.references.filterMap Reference.address?

def source? (s : Shape) : Option Address := s.reference?.bind Reference.address?

theorem sources_eq (s : Shape) : s.sources = s.nodes.filterMap source? := by
  rw [sources, references_eq, List.filterMap_filterMap]
  rfl

/-- The members that a construction sets, in order. -/
def members : Shape → List Member
  | .construct _ args => args.members
  | .memberInit _ args assignments => args.members ++ assignments.map Prod.fst
  | .entity .. | .attach .. | .parameter _ | .group _ | .constant .. | .column .. | .binary ..
  | .call .. | .reference _ | .lookup _ => []

/-- No construction in the shape names a member twice. -/
def NamesOnce (s : Shape) : Prop := ∀ n ∈ s.nodes, n.members.Nodup

instance (s : Shape) : Decidable s.NamesOnce :=
  inferInstanceAs (Decidable (∀ n ∈ s.nodes, n.members.Nodup))

end Shape

end QueryShaping
