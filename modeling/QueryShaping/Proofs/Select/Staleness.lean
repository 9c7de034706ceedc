import QueryShaping.Proofs.Select.Flatten
import QueryShaping.Proofs.Select.History

/-!
Slots of addresses over the history of a select. The table of slots is filled by a flattening from
the mapping of that moment. Main statement: it stays up to date as long as no address is mapped anew
whose slot holds another fragment (`upToDate_run`); mapping such an address makes its slot stale.
-/

namespace QueryShaping.Select

/-- An address that has a slot is mapped, and the slot holds what is mapped there. -/
def UpToDate (s : Select) : Prop :=
  ∀ a i, s.slot? (s.buffer a) = some i → ∃ f, s.mapping.get? a = some f ∧ s.fragments[i]? = some f

/-- Where an action maps an address that has a slot, it maps the fragment in that slot. -/
def Respects (s : Select) : Action → Prop
  | .mapAddress a f => ∀ g ∈ s.read? (s.buffer a), g = f
  | .project .. | .projectBuffer _ | .install _ | .flatten | .bind .. => True

/-- Every action of a history respects the slots that it finds. -/
def RespectsAll (s : Select) : List Action → Prop
  | [] => True
  | a :: actions => s.Respects a ∧ (s.act a).RespectsAll actions

instance decidableRespects (s : Select) : (a : Action) → Decidable (s.Respects a)
  | .mapAddress a f => inferInstanceAs (Decidable (∀ g ∈ s.read? (s.buffer a), g = f))
  | .project .. | .projectBuffer _ | .install _ | .flatten | .bind .. => .isTrue trivial

instance decidableRespectsAll (s : Select) :
    (actions : List Action) → Decidable (s.RespectsAll actions)
  | [] => .isTrue trivial
  | a :: actions => @instDecidableAnd _ _ (decidableRespects s a)
      (decidableRespectsAll (s.act a) actions)

theorem upToDate_of_slots {s : Select} (h : s.slots = ∅) : UpToDate s := by
  intro a i hi
  rw [slot?_buffer, h] at hi
  cases hi

section steps

variable {s after : Select}

theorem UpToDate.extend (h : UpToDate s) (he : s.Extends after) (hm : after.mapping = s.mapping)
    (hs : after.slots = s.slots) : UpToDate after := by
  intro a i hi
  rw [slot?_buffer, hs, ← slot?_buffer] at hi
  obtain ⟨f, hf, hi⟩ := h a i hi
  obtain ⟨rest, hr⟩ := he.fragments
  refine ⟨f, by rw [hm, hf], ?_⟩
  rw [← hr, List.getElem?_append_left (List.getElem?_eq_some_iff.mp hi).1, hi]

theorem UpToDate.add (h : UpToDate s) (slot : Slot) : UpToDate (s.add slot) :=
  h.extend (extends_add s slot) (mapping_add s slot) (slots_add s slot)

theorem upToDate_flatten (s : Select) : UpToDate s.flatten := by
  intro a i hi
  have hb : s.flatten.buffer a = ⟨s.id, .address a, .valueBuffer⟩ := by rw [buffer, id_flatten]
  rw [hb] at hi
  cases hm : s.mapping.get? a with
  | none => simp [slot?_flatten_of_none hm] at hi
  | some f =>
    have hr := read?_flatten hm .valueBuffer
    rw [read?, hi] at hr
    exact ⟨f, by rw [mapping_flatten, hm], hr⟩

theorem upToDate_mapAddress_iff (h : UpToDate s) {a : Address} {f : Fragment} :
    UpToDate (s.mapAddress a f) ↔ s.Respects (.mapAddress a f) := by
  constructor
  · intro hu g hg
    obtain ⟨i, hi, hgi⟩ := Option.bind_eq_some_iff.mp hg
    obtain ⟨f', hf', hfi⟩ := hu a i hi
    simp only [mapAddress, OrderedMap.get?_insert, if_true, Option.some.injEq] at hf'
    rw [hf']
    exact Option.some.inj (hgi.symm.trans hfi)
  · intro hr b i hi
    obtain ⟨g, hg, hgi⟩ := h b i hi
    by_cases hab : a = b
    · subst hab
      have hgf : g = f := hr g (Option.bind_eq_some_iff.mpr ⟨i, hi, hgi⟩)
      exact ⟨f, by simp [mapAddress, OrderedMap.get?_insert], hgf ▸ hgi⟩
    · exact ⟨g, by simp [mapAddress, OrderedMap.get?_insert, hab, hg], hgi⟩

theorem upToDate_act_iff (h : UpToDate s) {a : Action} : UpToDate (s.act a) ↔ s.Respects a := by
  cases a with
  | mapAddress a f => exact upToDate_mapAddress_iff h
  | project f type =>
    refine iff_of_true ?_ trivial
    rw [act, project_eq]
    exact h.add _
  | projectBuffer buffer =>
    refine iff_of_true ?_ trivial
    rw [act]
    rcases projectBuffer_cases s buffer with hs | ⟨slot, hs⟩
    · rwa [hs]
    · rw [hs]
      exact h.add slot
  | install mapping => exact iff_of_true (upToDate_of_slots rfl) trivial
  | flatten => exact iff_of_true (upToDate_flatten s) trivial
  | bind config store shape =>
    refine iff_of_true ?_ trivial
    rcases Binding.bindShape_cases config store shape s with
      ⟨e, -, hs⟩ | ⟨-, -, steps, hs⟩ | ⟨-, steps, hs⟩
    · rwa [act, hs]
    · rw [act, hs]
      exact upToDate_of_slots rfl
    · rw [act, hs]
      exact upToDate_of_slots rfl

end steps

/-- From a select without slots, such as a new one, the slots stay up to date while every action
respects them, and the next action that does not makes one stale. A clone goes on from the select
that it was taken of. -/
theorem upToDate_run {s : Select} (h : s.slots = ∅) {actions : List Action}
    (ha : s.RespectsAll actions) :
    UpToDate (s.run actions) ∧
      ∀ a, UpToDate ((s.run actions).act a) ↔ (s.run actions).Respects a := by
  have hu : UpToDate (s.run actions) := by
    replace h := upToDate_of_slots h
    induction actions generalizing s with
    | nil => exact h
    | cons a actions ih => exact ih ha.2 ((upToDate_act_iff h).mpr ha.1)
  exact ⟨hu, fun a => upToDate_act_iff hu⟩

/-- A key, mapped to an id, flattened and mapped to the id once more. -/
def keyed : List Action :=
  [.mapAddress [⟨"Order", "Key"⟩] (.column "o" "Id" .int64), .flatten,
    .mapAddress [⟨"Order", "Key"⟩] (.column "o" "Id" .int64)]

def remapKey : Action := .mapAddress [⟨"Order", "Key"⟩] (.column "o" "CustomerId" .int64)

theorem upToDate_run_keyed :
    (empty ⟨1⟩).RespectsAll keyed ∧ UpToDate ((empty ⟨1⟩).run keyed) ∧
      ¬ UpToDate (((empty ⟨1⟩).run keyed).act remapKey) := by
  have ha : (empty ⟨1⟩).RespectsAll keyed := by decide
  have hr : ¬ ((empty ⟨1⟩).run keyed).Respects remapKey := by decide
  obtain ⟨hu, hn⟩ := upToDate_run rfl ha
  exact ⟨ha, hu, fun h => hr ((hn remapKey).mp h)⟩

/-- A key that is mapped anew after a flattening reads the column that it was mapped to before. -/
theorem stale_remapKey :
    let s := ((empty ⟨1⟩).run keyed).act remapKey
    s.slot? (s.buffer [⟨"Order", "Key"⟩]) = some 0 ∧
      s.mapping.get? [⟨"Order", "Key"⟩] = some (.column "o" "CustomerId" .int64) ∧
      s.fragments[0]? = some (.column "o" "Id" .int64) ∧ ¬ UpToDate s := by
  refine ⟨by decide, by decide, by decide, fun h => ?_⟩
  obtain ⟨f, hm, hf⟩ := h [⟨"Order", "Key"⟩] 0 (by decide)
  have he : f = .column "o" "CustomerId" .int64 := Option.some.inj (hm.symm.trans (by decide))
  subst he
  revert hf
  decide

end QueryShaping.Select
