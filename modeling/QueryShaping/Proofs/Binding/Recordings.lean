import QueryShaping.Binding.Server
import QueryShaping.Proofs.Binding.Defects
import QueryShaping.Proofs.Binding.Runs
import QueryShaping.Shape.Traversal

/-!
What a server pass records. Main statements: a pass over a shape without obstacles records the
fragments of its leaves under their paths (`shape_returns`), a pass over any other shape stops at
the first obstacle (`shape_stops`), and the references of the bound shape are the recorded addresses
(`references_addressed`).
-/

namespace QueryShaping.Binding.Server

variable (store : Store)

section definitions

variable (behind? : Reference → Option Fragment)

mutual
/-- The fragments of the leaves of a shape, each with the path that leads to it. -/
def recordings (path : Address) : Shape → List (Address × Fragment)
  | .construct _ args => recordingsArgs path args
  | .memberInit _ args assignments => recordingsArgs path args ++ recordingsFields path assignments
  | .entity _ buffer => (behind? buffer).toList.map (path, ·)
  | .parameter p =>
    if p.type.isEnumerable then [] else (store (.parameter p)).toList.map (path, ·)
  | .constant value type => (store (.constant value type)).toList.map (path, ·)
  | .column table name type => (store (.column table name type)).toList.map (path, ·)
  | .binary left op right type => (store (.binary left op right type)).toList.map (path, ·)
  | .call function args type => (store (.call function args type)).toList.map (path, ·)
  | .attach .. | .group _ | .reference _ | .lookup _ => []
def recordingsArgs (path : Address) : Args Shape → List (Address × Fragment)
  | .positional _ => []
  | .named fields => recordingsFields path fields
def recordingsFields (path : Address) : List (Member × Shape) → List (Address × Fragment)
  | [] => []
  | (m, s) :: rest => recordings (path.child m) s ++ recordingsFields path rest
end

/-- A scalar without a fragment is an obstacle. -/
def unanswered (path : Address) (s : Shape) : List (Kind × Address) :=
  if (store s).isSome then [] else [(s.kind, path)]

mutual
/-- The nodes that keep a shape from being bound on the server, in the order of evaluation. -/
def obstacles (path : Address) : Shape → List (Kind × Address)
  | .construct _ args => obstaclesArgs path args
  | .memberInit _ args assignments => obstaclesArgs path args ++ obstaclesFields path assignments
  | .attach .. => [(.attach, path)]
  | .parameter p => if p.type.isEnumerable then [] else unanswered store path (.parameter p)
  | .constant value type => unanswered store path (.constant value type)
  | .column table name type => unanswered store path (.column table name type)
  | .binary left op right type => unanswered store path (.binary left op right type)
  | .call function args type => unanswered store path (.call function args type)
  | .entity .. | .group _ | .reference _ | .lookup _ => []
/-- Arguments by position have no addresses. -/
def obstaclesArgs (path : Address) : Args Shape → List (Kind × Address)
  | .positional [] => []
  | .positional (_ :: _) => [(.construct, path)]
  | .named fields => obstaclesFields path fields
def obstaclesFields (path : Address) : List (Member × Shape) → List (Kind × Address)
  | [] => []
  | (m, s) :: rest => obstacles (path.child m) s ++ obstaclesFields path rest
end

variable (query : QueryId)

mutual
/-- The shape whose leaves read the addresses at which they stand. -/
def addressed (path : Address) : Shape → Shape
  | .construct type args => .construct type (addressedArgs path args)
  | .memberInit type args assignments =>
    .memberInit type (addressedArgs path args) (addressedFields path assignments)
  | .entity type _ => .entity type ⟨query, .address path, .valueBuffer⟩
  | .parameter p =>
    if p.type.isEnumerable then .parameter p else .reference ⟨query, .address path, p.type⟩
  | .constant _ type | .column _ _ type | .binary _ _ _ type | .call _ _ type =>
    .reference ⟨query, .address path, type⟩
  | .attach e navigation value => .attach e navigation value
  | .group p => .group p
  | .reference r => .reference r
  | .lookup p => .lookup p
def addressedArgs (path : Address) : Args Shape → Args Shape
  | .positional values => .positional values
  | .named fields => .named (addressedFields path fields)
def addressedFields (path : Address) : List (Member × Shape) → List (Member × Shape)
  | [] => []
  | (m, s) :: rest => (m, addressed (path.child m) s) :: addressedFields path rest
end

end definitions

variable {store} {owner : Select}

section returns

theorem record_returns (path : Address) (f : Fragment) (type : DataType) :
    (record owner path f type).Returns ⟨owner.id, .address path, type⟩ [(path, f)] := ⟨rfl, rfl⟩

theorem entity_returns {path : Address} {type : String} {buffer : Reference} {a : Address}
    {f : Fragment} (ha : buffer.target = .address a) (hm : owner.mapping.get? a = some f) :
    (entity owner path type buffer).Returns (.entity type ⟨owner.id, .address path, .valueBuffer⟩)
      [(path, f)] := by
  have hs : (Obstacle.lift (source type buffer >>= Owner.fragmentAt owner)).Returns f [] := by
    simp only [source, ha]
    change (Obstacle.lift (owner.fragmentAt a)).Returns f []
    rw [Select.fragmentAt, hm]
    exact ⟨rfl, rfl⟩
  exact hs.bind ((record_returns path f .valueBuffer).map _)

theorem leaf_returns {path : Address} {s : Shape} (h : unanswered store path s = []) :
    (leaf owner store path s).Returns (.reference ⟨owner.id, .address path, s.type⟩)
      ((store s).toList.map (path, ·)) := by
  refine (Trace.returns_asked s).bind ?_
  cases hs : store s with
  | none => simp [unanswered, hs] at h
  | some f => exact (record_returns path f s.type).map _

-- A leaf is recorded at the very path that the pass carries, so no later node can change it here;
-- that two leaves may share a path shows only in the mapping.
mutual
theorem shape_returns : ∀ (s : Shape) (path : Address), (∀ n ∈ s.nodes, defect? owner n = none) →
    obstacles store path s = [] →
    (shape owner store path s).Returns (addressed owner.id path s)
      (recordings store owner.behind? path s)
  | .construct type args, path, hi, ho => by
    simp only [shape, addressed, recordings]
    exact (arguments_returns args path (List.forall_mem_cons.mp hi).2 ho).map _
  | .memberInit type args assignments, path, hi, ho => by
    obtain ⟨hia, hif⟩ := List.forall_mem_append.mp (List.forall_mem_cons.mp hi).2
    obtain ⟨hoa, hof⟩ := List.append_eq_nil_iff.mp ho
    simp only [shape, addressed, recordings]
    have ha := arguments_returns args path hia hoa
    have hf := fields_returns assignments path hif hof
    exact ha.bind (hf.map _)
  | .entity type buffer, path, hi, _ => by
    obtain ⟨a, f, ha, hm, hb⟩ := exists_behind?_of_intact hi
    simp only [shape, addressed, recordings, hb]
    exact entity_returns ha hm
  | .attach .., _, _, ho => by simp [obstacles] at ho
  | .parameter p, path, _, ho => by
    by_cases hp : p.type.isEnumerable
    · simp only [shape, addressed, recordings, hp, if_true]
      exact Trace.returns_pure (Shape.parameter p)
    · simp only [obstacles, hp] at ho
      simp only [shape, addressed, recordings, hp]
      exact leaf_returns ho
  | .constant .., _, _, ho | .column .., _, _, ho | .binary .., _, _, ho | .call .., _, _, ho =>
    leaf_returns ho
  | .group p, _, _, _ => Trace.returns_pure (Shape.group p)
  | .reference r, _, hi, _ => absurd hi (not_intact_reference r)
  | .lookup p, _, hi, _ => absurd hi (not_intact_lookup p)
theorem arguments_returns : ∀ (args : Args Shape) (path : Address),
    (∀ n ∈ Shape.nodesArgs args, defect? owner n = none) → obstaclesArgs store path args = [] →
    (arguments owner store path args).Returns (addressedArgs owner.id path args)
      (recordingsArgs store owner.behind? path args)
  | .positional [], _, _, _ => Trace.returns_pure (Args.positional [])
  | .positional (_ :: _), _, _, ho => by simp [obstaclesArgs] at ho
  | .named fs, path, hi, ho => by
    simp only [arguments, addressedArgs, recordingsArgs]
    exact (fields_returns fs path hi ho).map _
theorem fields_returns : ∀ (fs : List (Member × Shape)) (path : Address),
    (∀ n ∈ Shape.nodesFields fs, defect? owner n = none) → obstaclesFields store path fs = [] →
    (fields owner store path fs).Returns (addressedFields owner.id path fs)
      (recordingsFields store owner.behind? path fs)
  | [], _, _, _ => Trace.returns_pure []
  | (m, s) :: rest, path, hi, ho => by
    obtain ⟨his, hir⟩ := List.forall_mem_append.mp hi
    obtain ⟨hos, hor⟩ := List.append_eq_nil_iff.mp ho
    simp only [fields, addressedFields, recordingsFields]
    exact (shape_returns s (path.child m) his hos).bind ((fields_returns rest path hir hor).map _)
end

end returns

section stops

/-- A run whose obstacles are the given ones stops at the first of them. -/
def StopsAtFirst {α : Type} (t : Trace Obstacle α) (os : List (Kind × Address)) : Prop :=
  ∀ o ∈ os.head?, t.Stops (.outsideStore o.1 o.2)

variable {α β : Type} {t : Trace Obstacle α} {f : α → Trace Obstacle β}
  {as bs : List (Kind × Address)}

theorem StopsAtFirst.bind (ht : StopsAtFirst t as)
    (hf : as = [] → ∃ x recs, t.Returns x recs ∧ StopsAtFirst (f x) bs) :
    StopsAtFirst (t >>= f) (as ++ bs) := by
  intro o ho
  cases as with
  | nil =>
    obtain ⟨x, recs, hx, hb⟩ := hf rfl
    exact hx.bind_stops (hb o ho)
  | cons a as => exact (ht o ho).bind f

theorem StopsAtFirst.map (ht : StopsAtFirst t as) (g : α → β) :
    StopsAtFirst (do return g (← t)) as :=
  fun o ho => (ht o ho).bind fun x => pure (g x)

theorem leaf_stops (path : Address) (s : Shape) :
    StopsAtFirst (leaf owner store path s) (unanswered store path s) := by
  intro o ho
  cases hs : store s with
  | none =>
    simp only [unanswered, hs, Option.isSome_none, Bool.false_eq_true, if_false, List.head?_cons,
      Option.mem_def, Option.some.injEq] at ho
    subst ho
    refine (Trace.returns_asked s).bind_stops ?_
    simp only [hs]
    rfl
  | some f => simp [unanswered, hs] at ho

mutual
theorem shape_stops : ∀ (s : Shape) (path : Address), (∀ n ∈ s.nodes, defect? owner n = none) →
    StopsAtFirst (shape owner store path s) (obstacles store path s)
  | .construct type args, path, hi => by
    simp only [shape, obstacles]
    exact (arguments_stops args path (List.forall_mem_cons.mp hi).2).map _
  | .memberInit type args assignments, path, hi => by
    obtain ⟨hia, hif⟩ := List.forall_mem_append.mp (List.forall_mem_cons.mp hi).2
    simp only [shape, obstacles]
    refine (arguments_stops args path hia).bind fun hoa => ?_
    exact ⟨_, _, arguments_returns args path hia hoa, (fields_stops assignments path hif).map _⟩
  | .entity .., _, _ | .group _, _, _ | .reference _, _, _ | .lookup _, _, _ => by
    simp [obstacles, StopsAtFirst]
  | .attach .., path, _ => by
    intro o ho
    simp only [obstacles, List.head?_cons, Option.mem_def, Option.some.injEq] at ho
    subst ho
    rfl
  | .parameter p, path, _ => by
    by_cases hp : p.type.isEnumerable
    · simp [obstacles, hp, StopsAtFirst]
    · simp only [shape, obstacles, hp]
      exact leaf_stops path _
  | .constant .., path, _ | .column .., path, _ | .binary .., path, _ | .call .., path, _ =>
    leaf_stops path _
theorem arguments_stops : ∀ (args : Args Shape) (path : Address),
    (∀ n ∈ Shape.nodesArgs args, defect? owner n = none) →
    StopsAtFirst (arguments owner store path args) (obstaclesArgs store path args)
  | .positional [], _, _ => by simp [obstaclesArgs, StopsAtFirst]
  | .positional (_ :: _), path, _ => by
    intro o ho
    simp only [obstaclesArgs, List.head?_cons, Option.mem_def, Option.some.injEq] at ho
    subst ho
    rfl
  | .named fs, path, hi => by
    simp only [arguments, obstaclesArgs]
    exact (fields_stops fs path hi).map _
theorem fields_stops : ∀ (fs : List (Member × Shape)) (path : Address),
    (∀ n ∈ Shape.nodesFields fs, defect? owner n = none) →
    StopsAtFirst (fields owner store path fs) (obstaclesFields store path fs)
  | [], _, _ => by simp [obstaclesFields, StopsAtFirst]
  | (m, s) :: rest, path, hi => by
    obtain ⟨his, hir⟩ := List.forall_mem_append.mp hi
    simp only [fields, obstaclesFields]
    refine (shape_stops s (path.child m) his).bind fun hos => ?_
    exact ⟨_, _, shape_returns s _ his hos, (fields_stops rest path hir).map _⟩
end

end stops

section references

theorem references_leaf {path : Address} {s : Shape} (h : unanswered store path s = []) :
    (Shape.reference ⟨owner.id, .address path, s.type⟩).references.map
        (fun r => (r.query, r.target)) =
      ((store s).toList.map (path, ·)).map fun e => (owner.id, .address e.1) := by
  cases hs : store s with
  | none => simp [unanswered, hs] at h
  | some f => rfl

mutual
theorem references_addressed : ∀ (s : Shape) (path : Address),
    (∀ n ∈ s.nodes, defect? owner n = none) → obstacles store path s = [] →
    (addressed owner.id path s).references.map (fun r => (r.query, r.target)) =
      (recordings store owner.behind? path s).map fun e => (owner.id, .address e.1)
  | .construct _ args, path, hi, ho =>
    references_addressedArgs args path (List.forall_mem_cons.mp hi).2 ho
  | .memberInit _ args assignments, path, hi, ho => by
    obtain ⟨hia, hif⟩ := List.forall_mem_append.mp (List.forall_mem_cons.mp hi).2
    obtain ⟨hoa, hof⟩ := List.append_eq_nil_iff.mp ho
    have ha := references_addressedArgs args path hia hoa
    have hf := references_addressedFields assignments path hif hof
    rw [addressed, Shape.references, recordings, List.map_append, List.map_append, ha, hf]
  | .entity type buffer, path, hi, _ => by
    obtain ⟨a, f, -, -, hb⟩ := exists_behind?_of_intact hi
    simp only [recordings, hb]
    rfl
  | .attach .., _, _, ho => by simp [obstacles] at ho
  | .parameter p, path, _, ho => by
    by_cases hp : p.type.isEnumerable
    · simp [addressed, recordings, hp, Shape.references]
    · simp only [obstacles, hp] at ho
      simp only [addressed, recordings, hp]
      exact references_leaf ho
  | .constant .., _, _, ho | .column .., _, _, ho | .binary .., _, _, ho | .call .., _, _, ho =>
    references_leaf ho
  | .group _, _, _, _ | .lookup _, _, _, _ => rfl
  | .reference r, _, hi, _ => absurd hi (not_intact_reference r)
theorem references_addressedArgs : ∀ (args : Args Shape) (path : Address),
    (∀ n ∈ Shape.nodesArgs args, defect? owner n = none) → obstaclesArgs store path args = [] →
    (Shape.referencesArgs (addressedArgs owner.id path args)).map (fun r => (r.query, r.target)) =
      (recordingsArgs store owner.behind? path args).map fun e => (owner.id, .address e.1)
  | .positional [], _, _, _ => rfl
  | .positional (_ :: _), _, _, ho => by simp [obstaclesArgs] at ho
  | .named fs, path, hi, ho => references_addressedFields fs path hi ho
theorem references_addressedFields : ∀ (fs : List (Member × Shape)) (path : Address),
    (∀ n ∈ Shape.nodesFields fs, defect? owner n = none) → obstaclesFields store path fs = [] →
    (Shape.referencesFields (addressedFields owner.id path fs)).map
        (fun r => (r.query, r.target)) =
      (recordingsFields store owner.behind? path fs).map fun e => (owner.id, .address e.1)
  | [], _, _, _ => rfl
  | (m, s) :: rest, path, hi, ho => by
    obtain ⟨his, hir⟩ := List.forall_mem_append.mp hi
    obtain ⟨hos, hor⟩ := List.append_eq_nil_iff.mp ho
    have hs := references_addressed s (path.child m) his hos
    have hr := references_addressedFields rest path hir hor
    rw [addressedFields, Shape.referencesFields, recordingsFields, List.map_append,
      List.map_append, hs, hr]
end

end references

end QueryShaping.Binding.Server
