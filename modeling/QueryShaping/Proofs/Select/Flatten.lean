import QueryShaping.Proofs.Select.Slots

/-!
Flattening a mapping into a projection. Main statements: flattening adds the mapped fragments in
order and keeps the slot of each (`flatten_eq`), so that every mapped address reads its own fragment
(`read?_flatten`); what was to be read before is read as before, and nothing is left for a second
flattening (`flatten_exact`).
-/

namespace QueryShaping.Select

/-- The slots that the entries of a mapping take. -/
def slotsOf (es : List (Address × Fragment)) : List Slot := es.map fun e => ⟨e.2, e.2.type⟩

theorem add_withSlots (s : Select) (table : OrderedMap Address Nat) (slot : Slot) :
    ({ s with slots := table } : Select).add slot = { s.add slot with slots := table } := by
  by_cases h : slot.fragment ∈ s.fragments
  · rw [add, add, if_pos h]
    exact if_pos h
  · rw [add, add, if_neg h]
    exact if_neg h

theorem addAll_withSlots (s : Select) (table : OrderedMap Address Nat) (slots : List Slot) :
    ({ s with slots := table } : Select).addAll slots = { s.addAll slots with slots := table } := by
  induction slots generalizing s with
  | nil => rfl
  | cons slot slots ih =>
    rw [addAll, List.foldl_cons, ← addAll, add_withSlots, ih]
    rfl

theorem place_eq (s : Select) (a : Address) (f : Fragment) :
    s.place a f = { s.add ⟨f, f.type⟩ with slots := s.slots.insert a (s.position f) } := by
  rw [place, project_eq]
  simp only [slots_add]

/-- The slots of the first entries stay good while the others are placed. -/
theorem foldl_place (final : Select) (es : List (Address × Fragment)) (s : Select)
    (hf : (s.addAll (slotsOf es)).Extends final) :
    es.foldl (fun s e => s.place e.1 e.2) s =
      { s.addAll (slotsOf es) with
        slots := s.slots.insertAll (es.map fun e => (e.1, final.position e.2)) } := by
  induction es generalizing s with
  | nil => rfl
  | cons e es ih =>
    have hs : (s.add ⟨e.2, e.2.type⟩).Extends final :=
      (extends_addAll (s.add ⟨e.2, e.2.type⟩) (slotsOf es)).trans hf
    have hp : final.position e.2 = s.position e.2 := by
      rw [← position_add s ⟨e.2, e.2.type⟩]
      exact (hs.fragments.idxOf_eq_of_mem (mem_fragments_add s ⟨e.2, e.2.type⟩)).symm
    rw [List.foldl_cons, place_eq, ih, addAll_withSlots, List.map_cons, hp]
    · rfl
    · rw [addAll_withSlots]
      exact ⟨hf.id, hf.projection⟩

theorem flatten_eq (s : Select) :
    s.flatten =
      { s.addAll (slotsOf s.mapping.entries) with
        slots := .ofList (s.mapping.entries.map fun e =>
          (e.1, (s.addAll (slotsOf s.mapping.entries)).position e.2)) } := by
  rw [flatten, foldl_place (s.addAll (slotsOf s.mapping.entries)), addAll_withSlots]
  · rfl
  · rw [addAll_withSlots]
    exact ⟨rfl, List.prefix_rfl⟩

theorem id_flatten (s : Select) : s.flatten.id = s.id := by
  rw [flatten_eq]
  exact id_addAll s _

theorem mapping_flatten (s : Select) : s.flatten.mapping = s.mapping := by
  rw [flatten_eq]
  exact mapping_addAll s _

theorem mem_keys_slots_flatten {s : Select} {a : Address} :
    a ∈ s.flatten.slots.keys ↔ a ∈ s.mapping.keys := by
  rw [flatten_eq]
  simp only [OrderedMap.keys_ofList, List.mem_eraseDups, List.map_map]
  rfl

theorem slot?_flatten_of_none {s : Select} {a : Address} (h : s.mapping.get? a = none)
    (type : DataType) : s.flatten.slot? ⟨s.id, .address a, type⟩ = none := by
  rw [OrderedMap.get?_eq_none_iff, ← mem_keys_slots_flatten, ← OrderedMap.get?_eq_none_iff] at h
  simp only [slot?, id_flatten, if_true]
  exact h

theorem slot?_flatten {s : Select} {a : Address} {f : Fragment} (h : s.mapping.get? a = some f)
    (type : DataType) :
    s.flatten.slot? ⟨s.id, .address a, type⟩ =
      some ((s.addAll (slotsOf s.mapping.entries)).position f) := by
  have hk : ((s.mapping.entries.map fun e =>
      (e.1, (s.addAll (slotsOf s.mapping.entries)).position e.2)).map Prod.fst).Nodup := by
    rw [List.map_map]
    exact s.mapping.nodup_keys
  have he := OrderedMap.get?_eq_some_iff.mp h
  rw [flatten_eq]
  simp only [slot?, id_addAll, if_true]
  exact OrderedMap.get?_ofList_of_mem hk (List.mem_map.mpr ⟨(a, f), he, rfl⟩)

theorem read?_flatten {s : Select} {a : Address} {f : Fragment} (h : s.mapping.get? a = some f)
    (type : DataType) : s.flatten.read? ⟨s.id, .address a, type⟩ = some f := by
  have hm : (⟨f, f.type⟩ : Slot) ∈ slotsOf s.mapping.entries :=
    List.mem_map.mpr ⟨(a, f), OrderedMap.get?_eq_some_iff.mp h, rfl⟩
  rw [read?, slot?_flatten h, Option.bind_some, flatten_eq]
  exact fragments_position (mem_fragments_addAll s hm)

/-- After flattening a reference to an address reads what is mapped there. -/
theorem read?_flatten_eq (s : Select) (a : Address) (type : DataType) :
    s.flatten.read? ⟨s.id, .address a, type⟩ = s.mapping.get? a := by
  cases h : s.mapping.get? a with
  | none => rw [read?, slot?_flatten_of_none h, Option.bind_none]
  | some f => exact read?_flatten h type

theorem extends_flatten (s : Select) : s.Extends s.flatten := by
  rw [flatten_eq]
  exact ⟨id_addAll s _, (extends_addAll s _).projection⟩

/-- The new slots belong to the new fragments, each with the type of its fragment. -/
theorem projection_flatten (s : Select) :
    s.flatten.projection = s.projection ++
      (((s.mapping.entries.map Prod.snd).filter (· ∉ s.fragments)).eraseDups.map fun f =>
        ⟨f, f.type⟩) := by
  obtain ⟨added, hp, hf⟩ := exists_projection_addAll s (slotsOf s.mapping.entries)
  obtain ⟨added', hp', hs⟩ := exists_added s (slotsOf s.mapping.entries)
  obtain rfl : added' = added := List.append_cancel_left (hp'.symm.trans hp)
  have htype : ∀ slot ∈ added', (⟨slot.fragment, slot.fragment.type⟩ : Slot) = slot := by
    intro slot hslot
    obtain ⟨e, -, rfl⟩ := List.mem_map.mp (hs slot hslot)
    rfl
  have hadded : (added'.map Slot.fragment).map (fun f => ⟨f, f.type⟩) = added' := by
    rw [List.map_map]
    exact List.map_congr_left htype |>.trans (List.map_id _)
  have hnew : s.newFragments (slotsOf s.mapping.entries) =
      ((s.mapping.entries.map Prod.snd).filter (· ∉ s.fragments)).eraseDups := by
    rw [newFragments, slotsOf, List.map_map]
    rfl
  rw [← hnew, ← hf, hadded, ← hp, flatten_eq]

theorem mem_fragments_flatten {s : Select} {a : Address} {f : Fragment}
    (h : (a, f) ∈ s.mapping.entries) : f ∈ s.flatten.fragments := by
  have hs : (⟨f, f.type⟩ : Slot) ∈ slotsOf s.mapping.entries := List.mem_map.mpr ⟨(a, f), h, rfl⟩
  rw [flatten_eq]
  exact mem_fragments_addAll s hs

theorem slot?_buffer_flatten {s : Select} {a : Address} {f : Fragment}
    (h : s.mapping.get? a = some f) :
    s.flatten.slot? (s.flatten.buffer a) = some (s.flatten.position f) := by
  rw [buffer, id_flatten, slot?_flatten h, flatten_eq]
  rfl

theorem flatten_flatten (s : Select) : s.flatten.flatten = s.flatten := by
  have hadd : s.flatten.addAll (slotsOf s.mapping.entries) = s.flatten := by
    refine addAll_eq_self fun slot hs => ?_
    obtain ⟨e, he, rfl⟩ := List.mem_map.mp hs
    exact mem_fragments_flatten he
  have hslots : s.flatten.slots =
      .ofList (s.mapping.entries.map fun e => (e.1, s.flatten.position e.2)) := by
    rw [flatten_eq]
    rfl
  rw [flatten_eq s.flatten, mapping_flatten, hadd, ← hslots]

/-- Flattening adds the mapped fragments that the projection lacks, once each and in the order of the
mapping. Then exactly the mapped addresses have slots, two addresses the same one exactly if one
fragment is mapped at both. What a slot held before it still holds, and nothing is left for a second
flattening. -/
theorem flatten_exact (s : Select) :
    let after := s.flatten
    after.id = s.id ∧ after.mapping = s.mapping ∧
    after.projection = s.projection ++
      (((s.mapping.entries.map Prod.snd).filter (· ∉ s.fragments)).eraseDups.map fun f =>
        ⟨f, f.type⟩) ∧
    (∀ a, (after.slot? (after.buffer a)).isSome ↔ a ∈ s.mapping.keys) ∧
    (∀ a, after.read? (after.buffer a) = s.mapping.get? a) ∧
    (∀ a ∈ s.mapping.keys, ∀ b ∈ s.mapping.keys,
      after.slot? (after.buffer a) = after.slot? (after.buffer b) ↔
        s.mapping.get? a = s.mapping.get? b) ∧
    (∀ r i, r.target = .slot i → s.slot? r = some i →
      after.slot? r = some i ∧ after.read? r = s.read? r) ∧
    after.flatten = after := by
  intro after
  refine ⟨id_flatten s, mapping_flatten s, projection_flatten s, ?_, ?_, ?_, ?_, flatten_flatten s⟩
  · intro a
    rw [slot?_buffer, ← mem_keys_slots_flatten]
    exact OrderedMap.contains_iff
  · intro a
    rw [buffer, id_flatten]
    exact read?_flatten_eq s a .valueBuffer
  · intro a ha b hb
    obtain ⟨f, hf⟩ := Option.isSome_iff_exists.mp (OrderedMap.contains_iff.mpr ha)
    obtain ⟨g, hg⟩ := Option.isSome_iff_exists.mp (OrderedMap.contains_iff.mpr hb)
    have hmem : f ∈ after.fragments := mem_fragments_flatten (OrderedMap.get?_eq_some_iff.mp hf)
    rw [slot?_buffer_flatten hf, slot?_buffer_flatten hg, hf, hg, Option.some.injEq,
      Option.some.injEq]
    exact List.idxOf_inj hmem
  · intro r i ht hr
    obtain ⟨hq, hi, -⟩ := (slot?_eq_some_iff_of_slot ht).mp hr
    have hslot : after.slot? r = some i := (extends_flatten s).slot?_slot hq ht hi
    refine ⟨hslot, ?_⟩
    rw [read?, read?, hslot, hr, Option.bind_some, Option.bind_some]
    exact (extends_flatten s).getElem?_fragments hi

/-- Customers whose keys have a slot, with the names mapped twice and the keys once. -/
def namedTwice : Select :=
  let keyed := ((empty ⟨1⟩).project (.column "c" "Id" .int64) .int64).2
  let named := (keyed.mapAddress [⟨"View", "Name"⟩] (.column "c" "Name" .string)).mapAddress
    [⟨"View", "Label"⟩] (.column "c" "Name" .string)
  named.mapAddress [⟨"View", "Id"⟩] (.column "c" "Id" .int64)

theorem flatten_exact_namedTwice :
    let after := namedTwice.flatten
    after.projection = [⟨.column "c" "Id" .int64, .int64⟩, ⟨.column "c" "Name" .string, .string⟩] ∧
      after.slot? (after.buffer [⟨"View", "Name"⟩]) = after.slot? (after.buffer [⟨"View", "Label"⟩]) ∧
      after.slot? (after.buffer [⟨"View", "Name"⟩]) ≠ after.slot? (after.buffer [⟨"View", "Id"⟩]) ∧
      after.read? ⟨⟨1⟩, .slot 0, .int64⟩ = some (.column "c" "Id" .int64) ∧
      after.flatten = after := by
  obtain ⟨-, -, hp, -, -, hshare, hold, htwice⟩ := flatten_exact namedTwice
  have hname := hshare [⟨"View", "Name"⟩] (by decide)
  refine ⟨hp.trans (by decide), (hname [⟨"View", "Label"⟩] (by decide)).mpr rfl, ?_, ?_, htwice⟩
  · exact mt (hname [⟨"View", "Id"⟩] (by decide)).mp (by decide)
  · exact (hold ⟨⟨1⟩, .slot 0, .int64⟩ 0 rfl rfl).2

end QueryShaping.Select
