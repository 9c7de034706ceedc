import QueryShaping.Proofs.Binding.Outcome

/-!
Histories of a select: what can be done to it, in any order.
-/

namespace QueryShaping.Select

inductive Action where
  | mapAddress (address : Address) (fragment : Fragment)
  | project (fragment : Fragment) (type : DataType)
  | projectBuffer (buffer : Reference)
  | install (mapping : Mapping)
  | flatten
  | bind (config : Config) (store : Store) (shape : Shape)

/-- The select after an action, whether the action is answered or refused. -/
def act (s : Select) : Action → Select
  | .mapAddress a f => s.mapAddress a f
  | .project f type => (s.project f type).2
  | .projectBuffer buffer => (s.projectBuffer buffer).2
  | .install mapping => s.install mapping
  | .flatten => s.flatten
  | .bind config store shape => (bindShape config store shape s).2

def run (s : Select) (actions : List Action) : Select := actions.foldl act s

/-- What every action of a history keeps, the history keeps. -/
theorem run_induction {P : Select → Prop} {actions : List Action} {s : Select} (h : P s)
    (hk : ∀ a ∈ actions, ∀ s, P s → P (s.act a)) : P (s.run actions) := by
  induction actions generalizing s with
  | nil => exact h
  | cons a actions ih =>
    obtain ⟨ha, hs⟩ := List.forall_mem_cons.mp hk
    exact ih (ha s h) hs

/-- A buffer is answered by the slot of the fragment that it points at, by the slot that it names, or
not at all. -/
theorem projectBuffer_ends (s : Select) (buffer : Reference) :
    (∃ f, s.projectBuffer buffer = (.ok (s.position f), s.add ⟨f, .valueBuffer⟩)) ∨
    (∃ i < s.projection.length, s.projectBuffer buffer = (.ok i, s)) ∨
    ∃ e, s.projectBuffer buffer = (.error e, s) := by
  unfold projectBuffer
  split
  · split
    · next f _ => exact .inl ⟨f, by rw [project_eq]⟩
    · exact .inr (.inr ⟨_, rfl⟩)
  · split
    · next i _ hi => exact .inr (.inl ⟨i, hi, rfl⟩)
    · exact .inr (.inr ⟨_, rfl⟩)

theorem projectBuffer_cases (s : Select) (buffer : Reference) :
    (s.projectBuffer buffer).2 = s ∨ ∃ slot, (s.projectBuffer buffer).2 = s.add slot := by
  obtain ⟨f, h⟩ | ⟨i, -, h⟩ | ⟨e, h⟩ := projectBuffer_ends s buffer
  · exact .inr ⟨_, by rw [h]⟩
  · exact .inl (by rw [h])
  · exact .inl (by rw [h])

theorem slots_projectBuffer (s : Select) (buffer : Reference) :
    (s.projectBuffer buffer).2.slots = s.slots := by
  obtain hs | ⟨slot, hs⟩ := projectBuffer_cases s buffer
  · rw [hs]
  · rw [hs, slots_add]

/-- Only flattening fills the table of slots. Every other action keeps it or empties it. -/
theorem slots_act_cases (s : Select) {a : Action} (ha : a ≠ .flatten) :
    (s.act a).slots = s.slots ∨ (s.act a).slots = ∅ := by
  cases a with
  | mapAddress a f => exact .inl rfl
  | project f type => exact .inl (by rw [act, project_eq, slots_add])
  | projectBuffer buffer => exact .inl (slots_projectBuffer s buffer)
  | install mapping => exact .inr rfl
  | flatten => exact absurd rfl ha
  | bind config store shape =>
    obtain ⟨e, -, hs⟩ | ⟨-, -, steps, hs⟩ | ⟨-, steps, hs⟩ :=
      Binding.bindShape_cases config store shape s
    · exact .inl (by rw [act, hs])
    · exact .inr (by rw [act, hs]; rfl)
    · exact .inr (by rw [act, hs]; rfl)

theorem slots_act {s : Select} {a : Action} (h : s.slots = ∅) (ha : a ≠ .flatten) :
    (s.act a).slots = ∅ := by
  cases slots_act_cases s ha with
  | inl hs => rw [hs, h]
  | inr hs => exact hs

theorem slots_run {s : Select} {actions : List Action} (h : s.slots = ∅)
    (hf : .flatten ∉ actions) : (s.run actions).slots = ∅ := by
  apply run_induction (P := fun s => s.slots = ∅) h
  intro a ha s hs
  apply slots_act hs
  rintro rfl
  exact hf ha

theorem slot?_run_of_not_flatten {s : Select} {actions : List Action} (h : s.slots = ∅)
    (hf : .flatten ∉ actions) {r : Reference} {a : Address} (hr : r.target = .address a) :
    (s.run actions).slot? r = none := by
  simp only [slot?, hr, slots_run h hf]
  split <;> rfl

end QueryShaping.Select
