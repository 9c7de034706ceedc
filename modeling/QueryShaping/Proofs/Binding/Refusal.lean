import QueryShaping.Proofs.Binding.Outcome

/-!
Which shapes are refused. Main statement: a bind answers an error about the shape exactly if some
node of the shape has a defect, and it answers the defect of the first such node before anything
else is done (`bindShape_refused`).
-/

namespace QueryShaping

/-- The error says what is wrong with a shape. The others are about the policy and the parameters. -/
def Error.isDefect : Error → Bool
  | .foreignBuffer .. | .alreadyBound _ | .unmapped _ | .invalidBuffer _ => true
  | .clientEvaluationForbidden .. | .unknownParameter _ | .typeMismatch .. => false

namespace Binding

/-- What may not stand in a shape: nodes that only binding makes, and entities that are read from
another query, or else from a slot, or else from an address where nothing is mapped. -/
inductive Defect (owner : Select) : Shape → Error → Prop
  | reference (r : Reference) : Defect owner (.reference r) (.alreadyBound .reference)
  | lookup (p : Parameter) : Defect owner (.lookup p) (.alreadyBound .lookup)
  | foreign {type : String} {buffer : Reference} (hq : buffer.query ≠ owner.id) :
    Defect owner (.entity type buffer) (.foreignBuffer owner.id buffer.query)
  | slot {type : String} {buffer : Reference} {i : Nat} (hq : buffer.query = owner.id)
    (ht : buffer.target = .slot i) :
    Defect owner (.entity type buffer) (.invalidBuffer (.expectedAddress type))
  | unmapped {type : String} {buffer : Reference} {a : Address} (hq : buffer.query = owner.id)
    (ht : buffer.target = .address a) (hm : owner.mapping.get? a = none) :
    Defect owner (.entity type buffer) (.unmapped a)

variable {owner : Select} {n : Shape} {e : Error}

theorem Defect.isDefect (h : Defect owner n e) : e.isDefect := by
  cases h <;> rfl

theorem Defect.defect?_eq (h : Defect owner n e) : defect? owner n = some e := by
  cases h with
  | reference | lookup => rfl
  | foreign hq => simp [defect?, hq]
  | slot hq ht => simp [defect?, hq, ht]
  | unmapped hq ht hm => simp [defect?, hq, ht, OrderedMap.contains, hm]

theorem defect_of_defect? (h : defect? owner n = some e) : Defect owner n e := by
  cases n with
  | entity type buffer =>
    by_cases hq : buffer.query = owner.id
    · cases ht : buffer.target with
      | slot i =>
        simp only [defect?, hq, ht, ne_eq, not_true, if_false, Option.some.injEq] at h
        exact h ▸ .slot hq ht
      | address a =>
        cases hm : owner.mapping.get? a with
        | some f => simp [defect?, hq, ht, OrderedMap.contains, hm] at h
        | none =>
          simp only [defect?, hq, ht, OrderedMap.contains, hm, ne_eq, not_true, if_false,
            Option.isSome_none, Bool.false_eq_true, Option.some.injEq] at h
          exact h ▸ .unmapped hq ht hm
    · simp only [defect?, ne_eq, hq, not_false_eq_true, if_true, Option.some.injEq] at h
      exact h ▸ .foreign hq
  | reference r => exact Option.some.inj h ▸ .reference r
  | lookup p => exact Option.some.inj h ▸ .lookup p
  | _ => cases h

theorem defect?_eq_none_iff : defect? owner n = none ↔ ∀ e, ¬ Defect owner n e := by
  rw [Option.eq_none_iff_forall_ne_some]
  exact forall_congr' fun e => not_congr ⟨defect_of_defect?, Defect.defect?_eq⟩

/-- A shape without defects is bound, or the policy forbids that. -/
theorem bindShape_of_intact {s : Shape} (config : Config) (store : Store) (hi : Intact owner s) :
    (∃ b, (bindShape config store s owner).1.result = .ok b) ∨
      ∃ kind path, (bindShape config store s owner).1.result =
        .error (.clientEvaluationForbidden kind path) := by
  cases ho : Server.obstacles store .root s with
  | nil =>
    have hr : (bindShape config store s).Returns owner _ _ := bindShape_server hi ho
    obtain ⟨steps, hs⟩ := hr
    exact .inl ⟨_, by rw [hs]⟩
  | cons o os =>
    have hh : (Server.obstacles store .root s).head? = some o := by rw [ho, List.head?_cons]
    by_cases hp : config.policy = .forbid
    · exact .inr ⟨o.1, o.2, (bindShape_forbidden hi hh hp).1⟩
    · obtain ⟨steps, hs⟩ := bindShape_client hi hh hp
      exact .inl ⟨_, by rw [hs]⟩

theorem exists_refusal_of_defect {s : Shape} (config : Config) (store : Store) (hm : n ∈ s.nodes)
    (hd : Defect owner n e) :
    ∃ e', e'.isDefect ∧ (bindShape config store s owner).1.result = .error e' := by
  cases hf : s.nodes.findSome? (defect? owner) with
  | none =>
    have hn : defect? owner n = none := List.findSome?_eq_none_iff.mp hf n hm
    exact absurd hd (defect?_eq_none_iff.mp hn e)
  | some e' =>
    obtain ⟨m, -, he'⟩ := List.exists_of_findSome?_eq_some hf
    refine ⟨e', (defect_of_defect? he').isDefect, ?_⟩
    rw [bindShape_of_defect config store hf]
    rfl

theorem exists_defect_of_refusal {s : Shape} {config : Config} {store : Store} (he : e.isDefect)
    (hr : (bindShape config store s owner).1.result = .error e) :
    ∃ n ∈ s.nodes, ∃ e, Defect owner n e := by
  by_contra hn
  have hi : Intact owner s := fun n hm =>
    defect?_eq_none_iff.mpr fun e hd => hn ⟨n, hm, e, hd⟩
  obtain ⟨b, hb⟩ | ⟨kind, path, hb⟩ := bindShape_of_intact config store hi
  · cases hr.symm.trans hb
  · cases hr.symm.trans hb
    cases he

/-- A shape is refused exactly if some node of it has a defect, wherever the node stands and whatever
the policy is. The first such node decides, before the store is asked or anything is logged. -/
theorem bindShape_refused (config : Config) (store : Store) (s : Shape) (owner : Select) :
    let run := bindShape config store s owner
    s.nodes = s :: s.children.flatMap Shape.nodes ∧
    ((∃ e, e.isDefect ∧ run.1.result = .error e) ↔ ∃ n ∈ s.nodes, ∃ e, Defect owner n e) ∧
    ∀ before n after e, s.nodes = before ++ n :: after → (∀ m ∈ before, ∀ e, ¬ Defect owner m e) →
      Defect owner n e →
      run.1.result = .error e ∧ run.1.asked = [] ∧ run.1.events config = [] ∧ run.2 = owner := by
  refine ⟨s.nodes_eq, ⟨?_, ?_⟩, ?_⟩
  · rintro ⟨e, he, hr⟩
    exact exists_defect_of_refusal he hr
  · rintro ⟨n, hm, e, hd⟩
    exact exists_refusal_of_defect config store hm hd
  · intro before n after e hs hb hd
    have hf : s.nodes.findSome? (defect? owner) = some e := by
      rw [List.findSome?_eq_some_iff]
      exact ⟨before, n, after, hs, hd.defect?_eq, fun m hm => defect?_eq_none_iff.mpr (hb m hm)⟩
    rw [bindShape_of_defect config store hf]
    exact ⟨rfl, rfl, rfl, rfl⟩

/-- An order of another query below a call, and a lookup beside it. -/
def strayOrder : Shape :=
  .construct "Pair" (.positional [
    .call "Upper" [.entity "Order" ⟨⟨2⟩, .slot 0, .valueBuffer⟩] .string,
    .lookup ⟨"culture", .string⟩])

theorem bindShape_refused_strayOrder :
    let config : Config := { policy := .forbid }
    let run := bindShape config (fun _ => some (.column "c" "Id" .int64)) strayOrder customers
    (∃ e, e.isDefect ∧ run.1.result = .error e) ∧
      run.1.result = .error (.foreignBuffer ⟨1⟩ ⟨2⟩) ∧ run.1.asked = [] ∧
      run.1.events config = [] ∧ run.2 = customers := by
  obtain ⟨-, hiff, hfirst⟩ := bindShape_refused { policy := .forbid }
    (fun _ => some (.column "c" "Id" .int64)) strayOrder customers
  have hd : Defect customers (.entity "Order" ⟨⟨2⟩, .slot 0, .valueBuffer⟩)
      (.foreignBuffer ⟨1⟩ ⟨2⟩) := .foreign (by decide)
  have hb : ∀ m ∈ strayOrder.nodes.take 2, ∀ e, ¬ Defect customers m e :=
    List.forall_mem_cons.mpr ⟨nofun, List.forall_mem_singleton.mpr nofun⟩
  exact ⟨hiff.mpr ⟨_, by decide, _, hd⟩, hfirst _ _ _ _ rfl hb hd⟩

end Binding

end QueryShaping
