import Mathlib.Data.List.Nodup
import QueryShaping.Proofs.OrderedMap
import QueryShaping.Select

/-!
Slots of a projection. A fragment has one position, which no later addition moves. Main statements:
what a projection holds after a list of additions (`fragments_addAll`, `exists_projection_addAll`),
and that a reference to a fragment reads that fragment ever after (`read?_refer`).
-/

namespace QueryShaping.Select

def fragments (s : Select) : List Fragment := s.projection.map Slot.fragment

/-- The first slot that holds a fragment, or else the slot that it would get. -/
def position (s : Select) (f : Fragment) : Nat := s.fragments.idxOf f

/-- The reference to the slot of a fragment. -/
def refer (s : Select) (f : Fragment) (type : DataType) : Reference :=
  ⟨s.id, .slot (s.position f), type⟩

/-- What a row has for a reference, as a fragment. -/
def read? (s : Select) (r : Reference) : Option Fragment :=
  (s.slot? r).bind fun i => s.fragments[i]?

/-- A slot is added if its fragment has none. -/
def add (s : Select) (slot : Slot) : Select :=
  if slot.fragment ∈ s.fragments then s else { s with projection := s.projection ++ [slot] }

def addAll (s : Select) (slots : List Slot) : Select := slots.foldl add s

/-- A select of the same query whose projection goes on from that of another. -/
structure Extends (s after : Select) : Prop where
  id : after.id = s.id
  projection : s.projection <+: after.projection

section project

theorem position_eq_findIdx (s : Select) (f : Fragment) :
    s.position f = s.projection.findIdx (·.fragment = f) := by
  rw [position, fragments, List.idxOf, List.findIdx_map]
  rfl

theorem mem_fragments_iff {s : Select} {f : Fragment} :
    f ∈ s.fragments ↔ s.position f < s.projection.length := by
  rw [position, ← List.idxOf_lt_length_iff, fragments, List.length_map]

theorem position_eq_length {s : Select} {f : Fragment} (h : f ∉ s.fragments) :
    s.position f = s.projection.length := by
  rw [position, List.idxOf_of_notMem h, fragments, List.length_map]

theorem project_eq (s : Select) (f : Fragment) (type : DataType) :
    s.project f type = (s.position f, s.add ⟨f, type⟩) := by
  by_cases h : f ∈ s.fragments
  · have hi : s.projection.findIdx? (·.fragment = f) = some (s.position f) := by
      rw [List.findIdx?_eq_some_iff_findIdx_eq, ← position_eq_findIdx]
      exact ⟨mem_fragments_iff.mp h, rfl⟩
    rw [project, hi, add, if_pos h]
  · have hi : s.projection.findIdx? (·.fragment = f) = none := by
      rw [List.findIdx?_eq_none_iff_findIdx_eq, ← position_eq_findIdx, position_eq_length h]
    rw [project, hi, add, if_neg h, position_eq_length h]

end project

section add

@[simp] theorem id_add (s : Select) (slot : Slot) : (s.add slot).id = s.id := by
  unfold add
  split <;> rfl

@[simp] theorem mapping_add (s : Select) (slot : Slot) : (s.add slot).mapping = s.mapping := by
  unfold add
  split <;> rfl

@[simp] theorem slots_add (s : Select) (slot : Slot) : (s.add slot).slots = s.slots := by
  unfold add
  split <;> rfl

theorem fragments_add (s : Select) (slot : Slot) :
    (s.add slot).fragments = addNew s.fragments slot.fragment := by
  by_cases h : slot.fragment ∈ s.fragments
  · rw [add, if_pos h, addNew, if_pos h]
  · rw [add, if_neg h, addNew, if_neg h, fragments, List.map_append]
    rfl

theorem mem_fragments_add (s : Select) (slot : Slot) :
    slot.fragment ∈ (s.add slot).fragments := by
  rw [fragments_add, addNew]
  split
  · assumption
  · simp

theorem position_add (s : Select) (slot : Slot) :
    (s.add slot).position slot.fragment = s.position slot.fragment := by
  rw [position, fragments_add, addNew]
  split
  · rfl
  · next h => rw [List.idxOf_append_of_notMem h, position, List.idxOf_of_notMem h]; simp

/-- A fragment that was added has a slot. -/
theorem position_lt_add (s : Select) (slot : Slot) :
    s.position slot.fragment < (s.add slot).projection.length := by
  rw [← position_add]
  exact mem_fragments_iff.mp (mem_fragments_add s slot)

theorem nodup_fragments_add {s : Select} (h : s.fragments.Nodup) (slot : Slot) :
    (s.add slot).fragments.Nodup := by
  rw [fragments_add, addNew]
  split
  · exact h
  · next hf => exact h.append (List.nodup_singleton _) (List.disjoint_singleton.mpr hf)

@[simp] theorem id_addAll (s : Select) (slots : List Slot) : (s.addAll slots).id = s.id := by
  induction slots generalizing s with
  | nil => rfl
  | cons slot slots ih => exact (ih (s.add slot)).trans (id_add s slot)

@[simp] theorem mapping_addAll (s : Select) (slots : List Slot) :
    (s.addAll slots).mapping = s.mapping := by
  induction slots generalizing s with
  | nil => rfl
  | cons slot slots ih => exact (ih (s.add slot)).trans (mapping_add s slot)

theorem addAll_append (s : Select) (as bs : List Slot) :
    s.addAll (as ++ bs) = (s.addAll as).addAll bs :=
  List.foldl_append

theorem nodup_fragments_addAll {s : Select} (h : s.fragments.Nodup) (slots : List Slot) :
    (s.addAll slots).fragments.Nodup := by
  induction slots generalizing s with
  | nil => exact h
  | cons slot slots ih => exact ih (nodup_fragments_add h slot)

/-- The fragments that a list of additions brings, in the order in which they come. -/
def newFragments (s : Select) (slots : List Slot) : List Fragment :=
  ((slots.map Slot.fragment).filter (· ∉ s.fragments)).eraseDups

theorem fragments_addAll (s : Select) (slots : List Slot) :
    (s.addAll slots).fragments = s.fragments ++ s.newFragments slots := by
  rw [newFragments, ← foldl_addNew]
  induction slots generalizing s with
  | nil => rfl
  | cons slot slots ih =>
    rw [List.map_cons, List.foldl_cons, ← fragments_add]
    exact ih (s.add slot)

theorem mem_fragments_addAll (s : Select) {slots : List Slot} {slot : Slot} (h : slot ∈ slots) :
    slot.fragment ∈ (s.addAll slots).fragments := by
  rw [fragments_addAll, newFragments, List.mem_append, List.mem_eraseDups, List.mem_filter]
  by_cases hf : slot.fragment ∈ s.fragments
  · exact .inl hf
  · exact .inr ⟨List.mem_map_of_mem h, by simpa using hf⟩

/-- Nothing comes to a projection that has all the fragments. -/
theorem addAll_eq_self {s : Select} {slots : List Slot}
    (h : ∀ slot ∈ slots, slot.fragment ∈ s.fragments) : s.addAll slots = s := by
  induction slots with
  | nil => rfl
  | cons slot slots ih =>
    obtain ⟨hs, hr⟩ := List.forall_mem_cons.mp h
    have ha : s.add slot = s := if_pos hs
    rw [addAll, List.foldl_cons, ha]
    exact ih hr

end add

section Extends

theorem Extends.refl (s : Select) : Extends s s := ⟨rfl, List.prefix_rfl⟩

theorem Extends.trans {s t u : Select} (h : Extends s t) (h' : Extends t u) : Extends s u :=
  ⟨h'.id.trans h.id, h.projection.trans h'.projection⟩

theorem extends_add (s : Select) (slot : Slot) : Extends s (s.add slot) := by
  unfold add
  split
  · exact .refl s
  · exact ⟨rfl, List.prefix_append _ _⟩

theorem extends_addAll (s : Select) (slots : List Slot) : Extends s (s.addAll slots) := by
  induction slots generalizing s with
  | nil => exact .refl s
  | cons slot slots ih => exact (extends_add s slot).trans (ih (s.add slot))

theorem exists_projection_addAll (s : Select) (slots : List Slot) :
    ∃ added, (s.addAll slots).projection = s.projection ++ added ∧
      added.map Slot.fragment = s.newFragments slots := by
  obtain ⟨added, ha⟩ := (extends_addAll s slots).projection
  have hf : s.fragments ++ added.map Slot.fragment = s.fragments ++ s.newFragments slots := by
    rw [← fragments_addAll, fragments, fragments, ← List.map_append, ha]
  exact ⟨added, ha.symm, List.append_cancel_left hf⟩

variable {s after : Select}

theorem Extends.fragments (h : Extends s after) : s.fragments <+: after.fragments :=
  h.projection.map Slot.fragment

theorem Extends.refer_eq (h : Extends s after) {f : Fragment} (hf : f ∈ s.fragments)
    (type : DataType) : after.refer f type = s.refer f type := by
  have hp : after.position f = s.position f := (h.fragments.idxOf_eq_of_mem hf).symm
  rw [refer, refer, hp, h.id]

/-- A reference to a slot that is there is answered by every extension. -/
theorem Extends.slot?_slot (h : Extends s after) {r : Reference} {i : Nat} (hq : r.query = s.id)
    (ht : r.target = .slot i) (hi : i < s.projection.length) : after.slot? r = some i := by
  have hlt : i < after.projection.length := Nat.lt_of_lt_of_le hi h.projection.length_le
  rw [slot?, if_pos (hq.trans h.id.symm), ht]
  exact if_pos hlt

theorem Extends.getElem?_fragments (h : Extends s after) {i : Nat} (hi : i < s.projection.length) :
    after.fragments[i]? = s.fragments[i]? := by
  obtain ⟨rest, hr⟩ := h.fragments
  rw [← hr, List.getElem?_append_left]
  rwa [Select.fragments, List.length_map]

end Extends

section refer

variable {s : Select} {f : Fragment}

theorem slot?_buffer (s : Select) (a : Address) : s.slot? (s.buffer a) = s.slots.get? a := by
  simp [slot?, buffer]

theorem slot?_eq_some_iff_of_slot {r : Reference} {i j : Nat} (ht : r.target = .slot i) :
    s.slot? r = some j ↔ r.query = s.id ∧ i < s.projection.length ∧ i = j := by
  by_cases hq : r.query = s.id <;> simp [slot?, hq, ht]

theorem slot?_refer (h : f ∈ s.fragments) (type : DataType) :
    s.slot? (s.refer f type) = some (s.position f) := by
  simp [slot?, refer, mem_fragments_iff.mp h]

theorem fragments_position (h : f ∈ s.fragments) : s.fragments[s.position f]? = some f :=
  List.getElem?_idxOf h

theorem read?_refer (h : f ∈ s.fragments) (type : DataType) :
    s.read? (s.refer f type) = some f := by
  rw [read?, slot?_refer h, Option.bind_some, fragments_position h]

theorem mem_newFragments {slots : List Slot} :
    f ∈ s.newFragments slots ↔ f ∈ slots.map Slot.fragment ∧ f ∉ s.fragments := by
  rw [newFragments, List.mem_eraseDups, List.mem_filter, decide_eq_true_iff]

/-- The slots that come after the old ones belong to the new fragments, in their order. -/
theorem position_newFragments {slots : List Slot} {i : Nat}
    (h : (s.newFragments slots)[i]? = some f) :
    (s.addAll slots).position f = s.projection.length + i := by
  obtain ⟨hi, hf⟩ := List.getElem?_eq_some_iff.mp h
  have hn : f ∉ s.fragments := (mem_newFragments.mp (List.mem_of_getElem? h)).2
  rw [position, fragments_addAll, List.idxOf_append_of_notMem hn, fragments, List.length_map, ← hf]
  exact congrArg _ ((nodup_eraseDups _).idxOf_getElem i hi)

end refer

section added

theorem mem_projection_addAll {s : Select} {slots : List Slot} {slot : Slot}
    (h : slot ∈ (s.addAll slots).projection) : slot ∈ s.projection ∨ slot ∈ slots := by
  induction slots generalizing s with
  | nil => exact .inl h
  | cons new slots ih =>
    have hs : slot ∈ (s.add new).projection ∨ slot ∈ slots := ih h
    rcases hs with hs | hs
    · unfold add at hs
      split at hs
      · exact .inl hs
      · rcases List.mem_append.mp hs with hs | hs
        · exact .inl hs
        · exact .inr (List.mem_singleton.mp hs ▸ List.mem_cons_self)
    · exact .inr (List.mem_cons_of_mem new hs)

/-- The slots that a list of additions brings are among the additions. -/
theorem exists_added (s : Select) (slots : List Slot) :
    ∃ added, (s.addAll slots).projection = s.projection ++ added ∧
      ∀ slot ∈ added, slot ∈ slots := by
  obtain ⟨added, hp, hf⟩ := exists_projection_addAll s slots
  refine ⟨added, hp, fun slot hs => ?_⟩
  have hm : slot ∈ (s.addAll slots).projection := hp ▸ List.mem_append_right _ hs
  -- The fragment is new, so the slot is none of those that were there.
  refine (mem_projection_addAll hm).resolve_left fun hold => ?_
  have hn : slot.fragment ∈ s.newFragments slots := hf ▸ List.mem_map_of_mem hs
  exact (mem_newFragments.mp hn).2 (List.mem_map_of_mem hold)

end added

end QueryShaping.Select
