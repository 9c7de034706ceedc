import QueryShaping.Binding.Client
import QueryShaping.Proofs.Binding.Defects
import QueryShaping.Proofs.Binding.Runs
import QueryShaping.Shape.Traversal

/-!
What client evaluation asks of a projection. Main statements: the client pass adds the slots that a
shape demands and answers the residue of the shape (`shape_returns`), whose references are those
slots, one for each demand and in the same order (`references_residue`).
-/

namespace QueryShaping.Binding.Client

variable (store : Store) (behind? : Reference → Option Fragment)

/-- A scalar with a fragment demands one slot, any other what its rest demands. -/
def demand (s : Shape) (rest : List Slot) : List Slot :=
  match store s with
  | some f => [⟨f, s.type⟩]
  | none => rest

mutual
/-- The slots that a shape demands when it is evaluated on the client, from left to right. -/
def demands : Shape → List Slot
  | .construct _ args => demandsArgs args
  | .memberInit _ args assignments => demandsArgs args ++ demandsFields assignments
  | .entity _ buffer => (behind? buffer).toList.map (⟨·, .valueBuffer⟩)
  | .attach e _ value => demands e ++ demands value
  | .parameter p => if p.type.isEnumerable then [] else demand store (.parameter p) []
  | .constant value type => demand store (.constant value type) []
  | .column table name type => demand store (.column table name type) []
  | .binary left op right type =>
    demand store (.binary left op right type) (demands left ++ demands right)
  | .call function args type => demand store (.call function args type) (demandsAll args)
  | .group _ | .reference _ | .lookup _ => []
def demandsArgs : Args Shape → List Slot
  | .positional values => demandsAll values
  | .named fields => demandsFields fields
def demandsAll : List Shape → List Slot
  | [] => []
  | s :: rest => demands s ++ demandsAll rest
def demandsFields : List (Member × Shape) → List Slot
  | [] => []
  | (_, s) :: rest => demands s ++ demandsFields rest
end

variable (refer : Fragment → DataType → Reference)

/-- A scalar with a fragment gives way to a reference, any other to its rest. -/
def replace (s rest : Shape) : Shape :=
  match store s with
  | some f => .reference (refer f s.type)
  | none => rest

mutual
/-- What is left of a shape for the client when `refer` says where the fragments are. -/
def residue : Shape → Shape
  | .construct type args => .construct type (residueArgs args)
  | .memberInit type args assignments =>
    .memberInit type (residueArgs args) (residueFields assignments)
  | .entity type buffer =>
    match behind? buffer with
    | some f => .entity type (refer f .valueBuffer)
    | none => .entity type buffer
  | .attach e navigation value => .attach (residue e) navigation (residue value)
  | .parameter p =>
    if p.type.isEnumerable then .parameter p else replace store refer (.parameter p) (.lookup p)
  | .constant value type => replace store refer (.constant value type) (.constant value type)
  | .column table name type =>
    replace store refer (.column table name type) (.column table name type)
  | .binary left op right type =>
    replace store refer (.binary left op right type)
      (.binary (residue left) op (residue right) type)
  | .call function args type =>
    replace store refer (.call function args type) (.call function (residueAll args) type)
  | .group p => .group p
  | .reference r => .reference r
  | .lookup p => .lookup p
def residueArgs : Args Shape → Args Shape
  | .positional values => .positional (residueAll values)
  | .named fields => .named (residueFields fields)
def residueAll : List Shape → List Shape
  | [] => []
  | s :: rest => residue s :: residueAll rest
def residueFields : List (Member × Shape) → List (Member × Shape)
  | [] => []
  | (m, s) :: rest => (m, residue s) :: residueFields rest
end

section references

variable {store : Store} {owner : Select} {refer : Fragment → DataType → Reference}

/-- The reference that answers a demand. -/
def answer (refer : Fragment → DataType → Reference) (slot : Slot) : Reference :=
  refer slot.fragment slot.type

theorem references_replace {s r : Shape} {slots : List Slot}
    (hr : r.references = slots.map (answer refer)) :
    (replace store refer s r).references = (demand store s slots).map (answer refer) := by
  unfold replace demand
  split
  · rfl
  · exact hr

mutual
theorem references_residue : ∀ s : Shape, (∀ n ∈ s.nodes, defect? owner n = none) →
    (residue store owner.behind? refer s).references =
      (demands store owner.behind? s).map (answer refer)
  | .construct _ args, hi => references_residueArgs args (List.forall_mem_cons.mp hi).2
  | .memberInit _ args assignments, hi => by
    obtain ⟨hia, hif⟩ := List.forall_mem_append.mp (List.forall_mem_cons.mp hi).2
    have ha := references_residueArgs args hia
    have hf := references_residueFields assignments hif
    rw [residue, Shape.references, demands, List.map_append, ha, hf]
  | .entity type buffer, hi => by
    obtain ⟨a, f, -, -, hb⟩ := exists_behind?_of_intact hi
    simp only [residue, demands, hb]
    rfl
  | .attach e _ value, hi => by
    obtain ⟨hie, hiv⟩ := List.forall_mem_append.mp (List.forall_mem_cons.mp hi).2
    have he := references_residue e hie
    have hv := references_residue value hiv
    rw [residue, Shape.references, demands, List.map_append, he, hv]
  | .parameter p, _ => by
    by_cases hp : p.type.isEnumerable
    · simp [residue, demands, hp, Shape.references]
    · simp only [residue, demands, hp]
      exact references_replace rfl
  | .constant .., _ | .column .., _ => references_replace rfl
  | .binary left _ right _, hi => by
    obtain ⟨hil, hir⟩ := List.forall_mem_append.mp (List.forall_mem_cons.mp hi).2
    have hl := references_residue left hil
    have hr := references_residue right hir
    apply references_replace
    rw [Shape.references, List.map_append, hl, hr]
  | .call _ args _, hi => by
    have ha := references_residueAll args (List.forall_mem_cons.mp hi).2
    exact references_replace ha
  | .group _, _ => rfl
  | .reference r, hi => absurd hi (not_intact_reference r)
  | .lookup _, _ => rfl
theorem references_residueArgs : ∀ args : Args Shape,
    (∀ n ∈ Shape.nodesArgs args, defect? owner n = none) →
    Shape.referencesArgs (residueArgs store owner.behind? refer args) =
      (demandsArgs store owner.behind? args).map (answer refer)
  | .positional values, hi => references_residueAll values hi
  | .named fs, hi => references_residueFields fs hi
theorem references_residueAll : ∀ ss : List Shape,
    (∀ n ∈ Shape.nodesAll ss, defect? owner n = none) →
    Shape.referencesAll (residueAll store owner.behind? refer ss) =
      (demandsAll store owner.behind? ss).map (answer refer)
  | [], _ => rfl
  | s :: rest, hi => by
    obtain ⟨his, hir⟩ := List.forall_mem_append.mp hi
    have hs := references_residue s his
    have hr := references_residueAll rest hir
    rw [residueAll, Shape.referencesAll, demandsAll, List.map_append, hs, hr]
theorem references_residueFields : ∀ fs : List (Member × Shape),
    (∀ n ∈ Shape.nodesFields fs, defect? owner n = none) →
    Shape.referencesFields (residueFields store owner.behind? refer fs) =
      (demandsFields store owner.behind? fs).map (answer refer)
  | [], _ => rfl
  | (_, s) :: rest, hi => by
    obtain ⟨his, hir⟩ := List.forall_mem_append.mp hi
    have hs := references_residue s his
    have hr := references_residueFields rest hir
    rw [residueFields, Shape.referencesFields, demandsFields, List.map_append, hs, hr]
end

end references

section returns

variable {store : Store} {owner final : Select}

theorem project_returns (kind : Kind) (slot : Slot) (hf : (owner.add slot).Extends final) :
    (project kind slot.fragment slot.type).Returns owner
      (.reference (final.refer slot.fragment slot.type)) (owner.add slot) := by
  refine ⟨[.projected kind slot.fragment (owner.position slot.fragment)], ?_⟩
  have hp : Owner.project owner slot.fragment slot.type =
      (owner.position slot.fragment, owner.add slot) := Select.project_eq owner _ _
  rw [hf.refer_eq (Select.mem_fragments_add owner slot), Select.refer, Select.position_add]
  simp only [project, hp]
  rfl

theorem entity_returns {type : String} {buffer : Reference} {a : Address} {f : Fragment}
    (ha : buffer.target = .address a) (hm : owner.mapping.get? a = some f)
    (hf : (owner.add ⟨f, .valueBuffer⟩).Extends final) :
    (entity type buffer).Returns owner (.entity type (final.refer f .valueBuffer))
      (owner.add ⟨f, .valueBuffer⟩) := by
  refine ⟨[.buffered type (owner.position f)], ?_⟩
  have hp : Owner.projectBuffer owner buffer =
      (.ok (owner.position f), owner.add ⟨f, .valueBuffer⟩) := by
    simp only [Owner.projectBuffer, Select.projectBuffer, ha, Select.fragmentAt, hm,
      Select.project_eq]
  have hr : (owner.add ⟨f, .valueBuffer⟩).position f = owner.position f :=
    Select.position_add owner ⟨f, .valueBuffer⟩
  rw [hf.refer_eq (Select.mem_fragments_add owner ⟨f, .valueBuffer⟩), Select.refer, hr,
    Select.id_add]
  simp only [entity, hp]
  rfl

theorem scalar_returns {s r : Shape} {rest : Pass Select Error Shape} {pre slots : List Slot}
    (hf : (owner.addAll (pre ++ demand store s slots)).Extends final)
    (hr : (owner.addAll (pre ++ slots)).Extends final →
      rest.Returns (owner.addAll pre) r (owner.addAll (pre ++ slots))) :
    (scalar store s rest).Returns (owner.addAll pre) (replace store final.refer s r)
      (owner.addAll (pre ++ demand store s slots)) := by
  refine (Pass.returns_tell (.asked s) (owner.addAll pre)).bind ?_
  cases hs : store s with
  | none =>
    simp only [demand, hs] at hf
    simpa only [demand, replace, hs] using hr hf
  | some f =>
    simp only [demand, hs, Select.addAll_append] at hf
    simp only [demand, replace, hs, Select.addAll_append]
    exact project_returns s.kind ⟨f, s.type⟩ hf

/-- The slots of a first part come before those of a second. -/
theorem extends_of_append {pre as bs : List Slot}
    (hf : (owner.addAll (pre ++ (as ++ bs))).Extends final) :
    (owner.addAll (pre ++ as)).Extends final := by
  rw [← List.append_assoc, Select.addAll_append] at hf
  exact (Select.extends_addAll _ bs).trans hf

-- `pre` is what was demanded before this part. `final` stands for the select after the whole pass: it
-- stays the same through the recursion, so that the references can be taken from it at once.
mutual
theorem shape_returns : ∀ (s : Shape) (pre : List Slot), (∀ n ∈ s.nodes, defect? owner n = none) →
    (owner.addAll (pre ++ demands store owner.behind? s)).Extends final →
    (shape store s).Returns (owner.addAll pre) (residue store owner.behind? final.refer s)
      (owner.addAll (pre ++ demands store owner.behind? s))
  | .construct type args, pre, hi, hf => by
    have ha := arguments_returns args pre (List.forall_mem_cons.mp hi).2 hf
    simpa only [shape, residue, demands] using ha.map (Shape.construct type)
  | .memberInit type args assignments, pre, hi, hf => by
    obtain ⟨hia, hif⟩ := List.forall_mem_append.mp (List.forall_mem_cons.mp hi).2
    have ha := arguments_returns args pre hia (extends_of_append hf)
    rw [demands, ← List.append_assoc] at hf
    have hb := fields_returns assignments _ hif hf
    simp only [shape, residue, demands, ← List.append_assoc]
    exact ha.bind (hb.map _)
  | .entity type buffer, pre, hi, hf => by
    obtain ⟨a, f, ha, hm, hb⟩ := exists_behind?_of_intact hi
    simp only [demands, hb, Option.toList_some, List.map_cons, List.map_nil,
      Select.addAll_append] at hf
    simp only [shape, residue, demands, hb, Option.toList_some, List.map_cons, List.map_nil,
      Select.addAll_append]
    exact entity_returns ha (by rwa [Select.mapping_addAll]) hf
  | .attach e navigation value, pre, hi, hf => by
    obtain ⟨hie, hiv⟩ := List.forall_mem_append.mp (List.forall_mem_cons.mp hi).2
    have he := shape_returns e pre hie (extends_of_append hf)
    rw [demands, ← List.append_assoc] at hf
    have hv := shape_returns value _ hiv hf
    simp only [shape, residue, demands, ← List.append_assoc]
    exact he.bind (hv.map _)
  | .parameter p, pre, hi, hf => by
    by_cases hp : p.type.isEnumerable
    · simpa only [shape, residue, demands, hp, if_true, List.append_nil] using
        Pass.returns_pure (Shape.parameter p) (owner.addAll pre)
    · simp only [demands, hp] at hf
      simp only [shape, residue, demands, hp]
      refine scalar_returns hf fun _ => ?_
      rw [List.append_nil]
      exact (Pass.returns_tell (.deferred p) _).bind (Pass.returns_pure _ _)
  | .group p, pre, hi, hf => by
    simpa only [shape, residue, demands, List.append_nil] using Pass.returns_pure _ _
  | .constant value type, pre, hi, hf => by
    simp only [shape, residue, demands]
    exact scalar_returns hf fun _ => by simpa only [List.append_nil] using Pass.returns_pure _ _
  | .column table name type, pre, hi, hf => by
    simp only [shape, residue, demands]
    exact scalar_returns hf fun _ => by simpa only [List.append_nil] using Pass.returns_pure _ _
  | .binary left op right type, pre, hi, hf => by
    obtain ⟨hil, hir⟩ := List.forall_mem_append.mp (List.forall_mem_cons.mp hi).2
    simp only [shape, residue, demands]
    refine scalar_returns hf fun hf => ?_
    have hl := shape_returns left pre hil (extends_of_append hf)
    rw [← List.append_assoc] at hf
    have hr := shape_returns right _ hir hf
    rw [← List.append_assoc]
    exact hl.bind (hr.map _)
  | .call function args type, pre, hi, hf => by
    simp only [shape, residue, demands]
    refine scalar_returns hf fun hf => ?_
    have ha := shapes_returns args pre (List.forall_mem_cons.mp hi).2 hf
    exact ha.map _
  | .reference r, _, hi, _ => absurd hi (not_intact_reference r)
  | .lookup p, _, hi, _ => absurd hi (not_intact_lookup p)
theorem arguments_returns : ∀ (args : Args Shape) (pre : List Slot),
    (∀ n ∈ Shape.nodesArgs args, defect? owner n = none) →
    (owner.addAll (pre ++ demandsArgs store owner.behind? args)).Extends final →
    (arguments store args).Returns (owner.addAll pre)
      (residueArgs store owner.behind? final.refer args)
      (owner.addAll (pre ++ demandsArgs store owner.behind? args))
  | .positional values, pre, hi, hf => by
    simp only [arguments, residueArgs, demandsArgs]
    exact (shapes_returns values pre hi hf).map _
  | .named fs, pre, hi, hf => by
    simp only [arguments, residueArgs, demandsArgs]
    exact (fields_returns fs pre hi hf).map _
theorem shapes_returns : ∀ (ss : List Shape) (pre : List Slot),
    (∀ n ∈ Shape.nodesAll ss, defect? owner n = none) →
    (owner.addAll (pre ++ demandsAll store owner.behind? ss)).Extends final →
    (shapes store ss).Returns (owner.addAll pre) (residueAll store owner.behind? final.refer ss)
      (owner.addAll (pre ++ demandsAll store owner.behind? ss))
  | [], pre, hi, hf => by
    simpa only [shapes, residueAll, demandsAll, List.append_nil] using Pass.returns_pure _ _
  | s :: rest, pre, hi, hf => by
    obtain ⟨his, hir⟩ := List.forall_mem_append.mp hi
    have hs := shape_returns s pre his (extends_of_append hf)
    rw [demandsAll, ← List.append_assoc] at hf
    have hr := shapes_returns rest _ hir hf
    simp only [shapes, residueAll, demandsAll, ← List.append_assoc]
    exact hs.bind (hr.map _)
theorem fields_returns : ∀ (fs : List (Member × Shape)) (pre : List Slot),
    (∀ n ∈ Shape.nodesFields fs, defect? owner n = none) →
    (owner.addAll (pre ++ demandsFields store owner.behind? fs)).Extends final →
    (fields store fs).Returns (owner.addAll pre) (residueFields store owner.behind? final.refer fs)
      (owner.addAll (pre ++ demandsFields store owner.behind? fs))
  | [], pre, hi, hf => by
    simpa only [fields, residueFields, demandsFields, List.append_nil] using Pass.returns_pure _ _
  | (m, s) :: rest, pre, hi, hf => by
    obtain ⟨his, hir⟩ := List.forall_mem_append.mp hi
    have hs := shape_returns s pre his (extends_of_append hf)
    rw [demandsFields, ← List.append_assoc] at hf
    have hr := fields_returns rest _ hir hf
    simp only [fields, residueFields, demandsFields, ← List.append_assoc]
    exact hs.bind (hr.map _)
end

end returns

end QueryShaping.Binding.Client
