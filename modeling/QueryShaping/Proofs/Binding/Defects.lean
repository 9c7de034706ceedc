import QueryShaping.Binding.Check
import QueryShaping.Proofs.Select.Slots
import QueryShaping.Proofs.Shape.Nodes

/-!
Defects of shapes. Main statement: the check of a shape answers the defect of the first node that
has one (`check_eq`).
-/

namespace QueryShaping

/-- The fragment behind a value buffer. -/
def Select.behind? (s : Select) (buffer : Reference) : Option Fragment :=
  buffer.address?.bind s.mapping.get?

namespace Binding

/-- What is wrong with a node, its parts aside. -/
def defect? (owner : Select) : Shape → Option Error
  | .entity type buffer =>
    if buffer.query ≠ owner.id then some (.foreignBuffer owner.id buffer.query)
    else
      match buffer.target with
      | .slot _ => some (.invalidBuffer (.expectedAddress type))
      | .address a => if owner.mapping.contains a then none else some (.unmapped a)
  | .reference _ => some (.alreadyBound .reference)
  | .lookup _ => some (.alreadyBound .lookup)
  | .construct .. | .memberInit .. | .attach .. | .parameter _ | .group _ | .constant ..
  | .column .. | .binary .. | .call .. => none

/-- No node of the shape has a defect. -/
def Intact (owner : Select) (s : Shape) : Prop := ∀ n ∈ s.nodes, defect? owner n = none

/-- The verdict on a shape with the given first defect. -/
def verdict : Option Error → Except Error Unit
  | none => .ok ()
  | some e => .error e

theorem verdict_or (x y : Option Error) :
    verdict (x.or y) = (do verdict x; verdict y) := by
  cases x <;> rfl

variable (owner : Select)

theorem checkEntity_eq (type : String) (buffer : Reference) :
    checkEntity owner type buffer = verdict (defect? owner (.entity type buffer)) := by
  obtain ⟨query, target, bufferType⟩ := buffer
  by_cases hq : query = owner.id
  · cases target with
    | slot i => simp [checkEntity, source, defect?, verdict, hq, Owner.id]
    | address a =>
      cases hm : owner.mapping.get? a <;>
        simp [checkEntity, source, defect?, verdict, hq, hm, Owner.id, Owner.fragmentAt,
          Select.fragmentAt, OrderedMap.contains]
  · simp [checkEntity, defect?, verdict, hq, Owner.id]

theorem findSome?_congr {α β : Type} {f g : α → Option β} {l : List α} (h : ∀ a ∈ l, f a = g a) :
    l.findSome? f = l.findSome? g := by
  rw [← List.head?_filterMap, ← List.head?_filterMap, List.filterMap_congr h]

mutual
theorem check_eq : ∀ s : Shape, check owner s = verdict (s.nodes.findSome? (defect? owner))
  | .construct _ args => by
    simp only [check, Shape.nodes, List.findSome?_cons, defect?]
    exact checkArgs_eq args
  | .memberInit _ args assignments => by
    simp only [check, Shape.nodes, List.findSome?_cons, defect?, List.findSome?_append, verdict_or,
      checkArgs_eq args, checkFields_eq assignments]
  | .entity type buffer => by
    rw [check, checkEntity_eq, Shape.nodes, List.findSome?_singleton]
  | .attach e _ value => by
    simp only [check, Shape.nodes, List.findSome?_cons, defect?, List.findSome?_append, verdict_or,
      check_eq e, check_eq value]
  | .binary left _ right _ => by
    simp only [check, Shape.nodes, List.findSome?_cons, defect?, List.findSome?_append, verdict_or,
      check_eq left, check_eq right]
  | .call _ args _ => by
    simp only [check, Shape.nodes, List.findSome?_cons, defect?]
    exact checkAll_eq args
  | .parameter _ | .group _ | .constant .. | .column .. => by
    simp only [check, Shape.nodes, List.findSome?_singleton, defect?, verdict]
  | .reference _ | .lookup _ => by
    simp only [check, Shape.nodes, List.findSome?_singleton, defect?, verdict]
theorem checkArgs_eq : ∀ args : Args Shape,
    checkArgs owner args = verdict ((Shape.nodesArgs args).findSome? (defect? owner))
  | .positional values => by rw [checkArgs, Shape.nodesArgs, checkAll_eq values]
  | .named fields => by rw [checkArgs, Shape.nodesArgs, checkFields_eq fields]
theorem checkAll_eq : ∀ shapes : List Shape,
    checkAll owner shapes = verdict ((Shape.nodesAll shapes).findSome? (defect? owner))
  | [] => rfl
  | s :: rest => by
    simp only [checkAll, Shape.nodesAll, List.findSome?_append, verdict_or, check_eq s,
      checkAll_eq rest]
theorem checkFields_eq : ∀ fields : List (Member × Shape),
    checkFields owner fields = verdict ((Shape.nodesFields fields).findSome? (defect? owner))
  | [] => rfl
  | (_, s) :: rest => by
    simp only [checkFields, Shape.nodesFields, List.findSome?_append, verdict_or, check_eq s,
      checkFields_eq rest]
end

theorem check_eq_ok_iff (s : Shape) : check owner s = .ok () ↔ Intact owner s := by
  rw [check_eq, Intact, ← List.findSome?_eq_none_iff]
  cases s.nodes.findSome? (defect? owner) <;> simp [verdict]

variable {owner}

theorem exists_behind?_of_intact {type : String} {buffer : Reference}
    (hi : Intact owner (.entity type buffer)) :
    ∃ a f, buffer.target = .address a ∧ owner.mapping.get? a = some f ∧
      owner.behind? buffer = some f := by
  have h := hi (.entity type buffer) (Shape.self_mem_nodes _)
  obtain ⟨query, target, bufferType⟩ := buffer
  by_cases hq : query = owner.id
  · cases target with
    | slot i => simp [defect?, hq] at h
    | address a =>
      cases hm : owner.mapping.get? a with
      | none => simp [defect?, hq, hm, OrderedMap.contains] at h
      | some f => exact ⟨a, f, rfl, hm, hm⟩
  · simp [defect?, hq] at h

theorem not_intact_reference (r : Reference) : ¬ Intact owner (.reference r) := fun hi => by
  have h := hi (.reference r) (Shape.self_mem_nodes _)
  simp [defect?] at h

theorem not_intact_lookup (p : Parameter) : ¬ Intact owner (.lookup p) := fun hi => by
  have h := hi (.lookup p) (Shape.self_mem_nodes _)
  simp [defect?] at h

end Binding

end QueryShaping
