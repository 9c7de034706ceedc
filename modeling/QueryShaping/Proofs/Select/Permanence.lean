import QueryShaping.Proofs.Binding.Projection
import QueryShaping.Proofs.Select.Staleness

/-!
The slots of a select over its history. Slots are added and nothing else happens to them
(`exists_addAll_act`). Main statement: no fragment ever has two slots, and every slot number that is
handed out means the same slot for ever (`projection_run`).
-/

namespace QueryShaping.Select

/-- A new select, with an entity at its root or with nothing mapped. -/
inductive New : Select → Prop
  | empty (id : QueryId) : New (empty id)
  | ofEntity (id : QueryId) (columns : EntityColumns) : New (ofEntity id columns)

/-- The slot numbers that an action answers, alone or in the references of a bound shape. -/
def handedOut (s : Select) : Action → List Nat
  | .project f type => [(s.project f type).1]
  | .projectBuffer buffer =>
    match (s.projectBuffer buffer).1 with
    | .ok i => [i]
    | .error _ => []
  | .bind config store shape =>
    match (bindShape config store shape s).1.result with
    | .ok b => b.shape.references.filterMap Reference.slot?
    | .error _ => []
  | .mapAddress .. | .install _ | .flatten => []

/-- No fragment has two slots, and the slot of every address is there. -/
structure Coherent (s : Select) : Prop where
  nodup : s.fragments.Nodup
  bounded : ∀ a, ∀ i ∈ s.slots.get? a, i < s.projection.length

theorem coherent_of_new {s : Select} (h : New s) : Coherent s := by
  cases h <;> exact ⟨List.nodup_nil, nofun⟩

theorem exists_addAll_act (s : Select) (a : Action) :
    (s.act a).id = s.id ∧ ∃ slots, (s.act a).projection = (s.addAll slots).projection := by
  cases a with
  | mapAddress a f => exact ⟨rfl, [], rfl⟩
  | project f type =>
    rw [act, project_eq]
    exact ⟨id_add s _, [⟨f, type⟩], rfl⟩
  | projectBuffer buffer =>
    rw [act]
    obtain hs | ⟨slot, hs⟩ := projectBuffer_cases s buffer
    · rw [hs]
      exact ⟨rfl, [], rfl⟩
    · rw [hs]
      exact ⟨id_add s slot, [slot], rfl⟩
  | install mapping => exact ⟨rfl, [], rfl⟩
  | flatten =>
    refine ⟨id_flatten s, slotsOf s.mapping.entries, ?_⟩
    rw [act, flatten_eq]
  | bind config store shape =>
    obtain ⟨e, -, hs⟩ | ⟨-, -, steps, hs⟩ | ⟨-, steps, hs⟩ :=
      Binding.bindShape_cases config store shape s
    · rw [act, hs]
      exact ⟨rfl, [], rfl⟩
    · rw [act, hs]
      exact ⟨rfl, [], rfl⟩
    · rw [act, hs]
      exact ⟨id_addAll s _, _, rfl⟩

theorem extends_act (s : Select) (a : Action) : s.Extends (s.act a) := by
  obtain ⟨hid, slots, hp⟩ := exists_addAll_act s a
  exact ⟨hid, hp ▸ (extends_addAll s slots).projection⟩

theorem extends_run (s : Select) (actions : List Action) : s.Extends (s.run actions) :=
  run_induction (.refl s) fun a _ t ht => ht.trans (extends_act t a)

/-- A reference to a slot that is there is answered ever after. -/
theorem slot?_run_slot {s : Select} {r : Reference} {i : Nat} (hq : r.query = s.id)
    (ht : r.target = .slot i) (hi : i < s.projection.length) (later : List Action) :
    (s.run later).slot? r = some i :=
  (extends_run s later).slot?_slot hq ht hi

theorem coherent_act {s : Select} (h : Coherent s) (a : Action) : Coherent (s.act a) := by
  have hl : s.projection.length ≤ (s.act a).projection.length :=
    (extends_act s a).projection.length_le
  constructor
  · obtain ⟨-, slots, hp⟩ := exists_addAll_act s a
    rw [fragments, hp]
    exact nodup_fragments_addAll h.nodup slots
  · intro b i hi
    -- Flattening fills the table with slots that are there by then. Nothing else adds to the table,
    -- and the projection never shrinks below it.
    by_cases ha : a = .flatten
    · subst ha
      obtain ⟨f, -, hf⟩ := upToDate_flatten s b i (by rw [slot?_buffer]; exact hi)
      obtain ⟨hi, -⟩ := List.getElem?_eq_some_iff.mp hf
      rwa [fragments, List.length_map] at hi
    · cases slots_act_cases s ha with
      | inl hs =>
        rw [hs] at hi
        have hb : i < s.projection.length := h.bounded b i hi
        omega
      | inr hs =>
        rw [hs] at hi
        cases hi

theorem coherent_run {s : Select} (h : Coherent s) (actions : List Action) :
    Coherent (s.run actions) :=
  run_induction h fun a _ _ ht => coherent_act ht a

/-- A slot stays what it is, whatever is done later. -/
theorem exists_slot_run {s : Select} {i : Nat} (h : i < s.projection.length) :
    ∃ slot, ∀ later, (s.run later).projection[i]? = some slot := by
  refine ⟨s.projection[i], fun later => ?_⟩
  obtain ⟨rest, hr⟩ := (extends_run s later).projection
  rw [← hr, List.getElem?_append_left h, List.getElem?_eq_getElem h]

theorem Coherent.slot?_lt {s : Select} (h : Coherent s) {r : Reference} {i : Nat}
    (hr : s.slot? r = some i) : i < s.projection.length := by
  cases ht : r.target with
  | slot j =>
    obtain ⟨-, hj, rfl⟩ := (slot?_eq_some_iff_of_slot ht).mp hr
    exact hj
  | address a =>
    simp only [slot?, ht, Option.ite_none_right_eq_some] at hr
    exact h.bounded a i hr.2

theorem lt_of_mem_handedOut {s : Select} {a : Action} {i : Nat} (h : i ∈ s.handedOut a) :
    i < (s.act a).projection.length := by
  cases a with
  | project f type =>
    rw [List.mem_singleton.mp h, act, project_eq]
    exact position_lt_add s ⟨f, type⟩
  | projectBuffer buffer =>
    rw [act]
    obtain ⟨f, hb⟩ | ⟨j, hj, hb⟩ | ⟨e, hb⟩ := projectBuffer_ends s buffer
    · simp only [handedOut, hb, List.mem_singleton] at h ⊢
      exact h ▸ position_lt_add s ⟨f, .valueBuffer⟩
    · simp only [handedOut, hb, List.mem_singleton] at h ⊢
      exact h ▸ hj
    · simp only [handedOut, hb] at h
      cases h
  | bind config store shape =>
    obtain ⟨e, he, -⟩ | ⟨hi, ho, steps, hs⟩ | ⟨hi, steps, hs⟩ :=
      Binding.bindShape_cases config store shape s
    · simp only [handedOut, he] at h
      cases h
    · simp only [handedOut, hs] at h
      obtain ⟨r, hr, hslot⟩ := List.mem_filterMap.mp h
      obtain ⟨-, e, -, ht⟩ := Binding.address_of_mem_serverBound hi ho hr
      simp [Reference.slot?, ht] at hslot
    · simp only [handedOut, hs] at h
      rw [act, hs]
      obtain ⟨r, hr, hslot⟩ := List.mem_filterMap.mp h
      obtain ⟨-, j, ht, hj⟩ := Binding.slot_of_mem_clientBound hi hr
      simp only [Reference.slot?, ht, Option.some.injEq] at hslot
      exact hslot ▸ hj
  | mapAddress | install | flatten => cases h

/-- However a new select is used, a clone of it included, no fragment gets two slots, an action keeps
every slot that was there and its type, and a slot number means one slot for ever, be it answered by
an action, put into a bound shape or found for a reference. -/
theorem projection_run {start : Select} (h : New start) (actions : List Action) :
    let s := start.run actions
    s.fragments.Nodup ∧
    (∀ a, s.projection <+: (s.act a).projection) ∧
    (∀ a, ∀ i ∈ s.handedOut a, ∃ slot, ∀ later, ((s.act a).run later).projection[i]? = some slot) ∧
    ∀ r i, s.slot? r = some i → i < s.projection.length ∧
      ∃ slot, ∀ later, (s.run later).projection[i]? = some slot := by
  have hc : Coherent (start.run actions) := coherent_run (coherent_of_new h) actions
  refine ⟨hc.nodup, fun a => (extends_act _ a).projection, ?_, ?_⟩
  · intro a i hi
    exact exists_slot_run (lt_of_mem_handedOut hi)
  · intro r i hr
    exact ⟨hc.slot?_lt hr, exists_slot_run (hc.slot?_lt hr)⟩

open Binding in
theorem projection_run_customers :
    let s := (ofEntity ⟨1⟩ ⟨"Customer", "c", [("Id", .int64), ("Name", .string)]⟩).run
      [.project (.column "c" "Id" .int64) .int64]
    let a := Action.bind {} standardStore (customerView localName)
    2 ∈ s.handedOut a ∧
      ∀ later, ((s.act a).run later).projection[2]? = some ⟨.column "c" "Name" .string, .string⟩ := by
  have hm : 2 ∈ customers.handedOut (.bind {} standardStore (customerView localName)) := by decide
  obtain ⟨-, -, ha, -⟩ := projection_run
    (.ofEntity ⟨1⟩ ⟨"Customer", "c", [("Id", .int64), ("Name", .string)]⟩)
    [.project (.column "c" "Id" .int64) .int64]
  obtain ⟨slot, hs⟩ := ha (.bind {} standardStore (customerView localName)) 2 hm
  have hslot : slot = ⟨.column "c" "Name" .string, .string⟩ := Option.some.inj (hs []).symm
  exact ⟨hm, hslot ▸ hs⟩

end QueryShaping.Select
