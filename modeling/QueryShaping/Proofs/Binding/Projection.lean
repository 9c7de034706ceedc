import QueryShaping.Proofs.Binding.Outcome

/-!
The projection after a bind for client evaluation. Main statement: the slots that a shape demands
are added, each fragment once, and the references of the bound shape read them in order
(`bindShape_client_exact`).
-/

namespace QueryShaping.Binding

variable {store : Store} {s : Shape} {owner : Select}

theorem references_clientBound (store : Store) (hi : Intact owner s) :
    (clientBound store owner s).references =
      (Client.demands store owner.behind? s).map
        (Client.answer (projected store owner s).refer) :=
  Client.references_residue s hi

theorem slot_of_mem_clientBound (hi : Intact owner s) {r : Reference}
    (hr : r ∈ (clientBound store owner s).references) :
    r.query = owner.id ∧
      ∃ i, r.target = .slot i ∧ i < (projected store owner s).projection.length := by
  rw [references_clientBound store hi] at hr
  obtain ⟨slot, hs, rfl⟩ := List.mem_map.mp hr
  have hf : slot.fragment ∈ (projected store owner s).fragments :=
    Select.mem_fragments_addAll owner hs
  exact ⟨Select.id_addAll owner _, _, rfl, Select.mem_fragments_iff.mp hf⟩

theorem slot?_answer {slot : Slot} (h : slot ∈ Client.demands store owner.behind? s) :
    ((projected store owner s).install ∅).slot?
        (Client.answer (projected store owner s).refer slot) =
      some ((projected store owner s).position slot.fragment) :=
  Select.slot?_refer (Select.mem_fragments_addAll owner h) slot.type

theorem read?_answer {slot : Slot} (h : slot ∈ Client.demands store owner.behind? s) :
    ((projected store owner s).install ∅).read?
        (Client.answer (projected store owner s).refer slot) = some slot.fragment :=
  Select.read?_refer (Select.mem_fragments_addAll owner h) slot.type

theorem map_read?_references (hi : Intact owner s) :
    (clientBound store owner s).references.map
        ((projected store owner s).install ∅).read? =
      ((Client.demands store owner.behind? s).map Slot.fragment).map some := by
  rw [references_clientBound store hi, List.map_map, List.map_map]
  exact List.map_congr_left fun slot hs => read?_answer hs

theorem exists_reference_of_new (hi : Intact owner s) {i : Nat} {f : Fragment}
    (h : (owner.newFragments (Client.demands store owner.behind? s))[i]? = some f) :
    ∃ r ∈ (clientBound store owner s).references,
      ((projected store owner s).install ∅).slot? r = some (owner.projection.length + i) := by
  obtain ⟨slot, hs, rfl⟩ := List.mem_map.mp (Select.mem_newFragments.mp (List.mem_of_getElem? h)).1
  refine ⟨Client.answer (projected store owner s).refer slot, ?_, ?_⟩
  · rw [references_clientBound store hi]
    exact List.mem_map_of_mem hs
  · rw [slot?_answer hs, projected, Select.position_newFragments h]

theorem slot?_eq_iff (hi : Intact owner s) {p q : Reference × Fragment}
    (hp : p ∈ (clientBound store owner s).references.zip
      ((Client.demands store owner.behind? s).map Slot.fragment))
    (hq : q ∈ (clientBound store owner s).references.zip
      ((Client.demands store owner.behind? s).map Slot.fragment)) :
    ((projected store owner s).install ∅).slot? p.1 =
        ((projected store owner s).install ∅).slot? q.1 ↔ p.2 = q.2 := by
  rw [references_clientBound store hi, List.zip_map'] at hp hq
  obtain ⟨slot, hs, rfl⟩ := List.mem_map.mp hp
  obtain ⟨slot', hs', rfl⟩ := List.mem_map.mp hq
  rw [slot?_answer hs, slot?_answer hs', Option.some.injEq]
  exact List.idxOf_inj (Select.mem_fragments_addAll owner hs)

/-- The demands of a shape are answered in order: what the projection lacked is added once and is
read, and two references read one slot exactly when they read one fragment. -/
theorem bindShape_client_exact (config : Config) (store : Store) (s : Shape) (owner : Select)
    {b : Shape}
    (h : (bindShape config store s owner).1.result = .ok ⟨b, .client⟩) :
    let after := (bindShape config store s owner).2
    let fs := (Client.demands store owner.behind? s).map Slot.fragment
    (∃ added, after.projection = owner.projection ++ added ∧
      added.map Slot.fragment = (fs.filter (· ∉ owner.fragments)).eraseDups ∧
      ∀ i < added.length, ∃ r ∈ b.references,
        after.slot? r = some (owner.projection.length + i)) ∧
    b.references.length = fs.length ∧
    b.references.map after.read? = fs.map some ∧
    (∀ p ∈ b.references.zip fs, ∀ q ∈ b.references.zip fs,
      after.slot? p.1 = after.slot? q.1 ↔ p.2 = q.2) ∧
    after.mapping = ∅ := by
  obtain ⟨hi, rfl, ha⟩ := eq_of_bindShape_client h
  rw [ha]
  obtain ⟨added, hp, hf⟩ :=
    Select.exists_projection_addAll owner (Client.demands store owner.behind? s)
  have hread : ∀ i < added.length, ∃ r ∈ (clientBound store owner s).references,
      ((projected store owner s).install ∅).slot? r = some (owner.projection.length + i) := by
    intro i hl
    apply exists_reference_of_new hi
    rw [← hf, List.getElem?_map, List.getElem?_eq_getElem hl, Option.map_some]
  have hlen : (clientBound store owner s).references.length =
      ((Client.demands store owner.behind? s).map Slot.fragment).length := by
    rw [references_clientBound store hi, List.length_map, List.length_map]
  exact ⟨⟨added, hp, hf, hread⟩, hlen, map_read?_references hi,
    fun p hp q hq => slot?_eq_iff hi hp hq, rfl⟩

theorem bindShape_client_exact_localName :
    ∃ b, (bindShape {} standardStore (customerView localName) customers).1.result =
        .ok ⟨b, .client⟩ ∧
      b.references.map (bindShape {} standardStore (customerView localName) customers).2.read? =
        [some (.column "c" "Id" .int64), some (.column "c" "Id" .int64),
          some (.entity ⟨"Customer", "c", [("Id", .int64), ("Name", .string)]⟩),
          some (.column "c" "Name" .string)] := by
  obtain ⟨-, -, hr, -⟩ :=
    bindShape_client_exact {} standardStore (customerView localName) customers rfl
  exact ⟨_, rfl, hr⟩

end QueryShaping.Binding
