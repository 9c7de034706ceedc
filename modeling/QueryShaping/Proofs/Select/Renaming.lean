import Mathlib.Data.List.Basic
import QueryShaping.Proofs.OrderedMap
import QueryShaping.Proofs.Shape.Relabelling
import QueryShaping.Select

/-!
Renamings of a select. Main statement: whatever a select is asked to do, it does alike under other
names, and answers the same slots (`project_rename`, `projectBuffer_rename`, `flatten_rename`).
-/

namespace QueryShaping

/-- Other names and constants for those of a query, given one to one. -/
structure Renaming where
  table : String → String
  column : String → String
  parameter : String → String
  constant : Value → Value
  table_injective : Function.Injective table
  column_injective : Function.Injective column
  parameter_injective : Function.Injective parameter
  constant_injective : Function.Injective constant

/-- References are kept. -/
def Renaming.relabelling (ρ : Renaming) : Relabelling where
  table := ρ.table
  column := ρ.column
  parameter := ρ.parameter
  constant := ρ.constant

instance : Coe Renaming Relabelling := ⟨Renaming.relabelling⟩

variable (ρ : Renaming)

theorem EntityColumns.relabel_injective : Function.Injective (EntityColumns.relabel ρ) := by
  intro a b h
  obtain ⟨entity, table, columns⟩ := a
  obtain ⟨entity', table', columns'⟩ := b
  simp only [relabel, EntityColumns.mk.injEq] at h
  obtain ⟨rfl, ht, hc⟩ := h
  have hg : Function.Injective fun c : String × DataType => (ρ.column c.1, c.2) := by
    intro c d hcd
    obtain ⟨hn, hd⟩ := Prod.mk.inj hcd
    exact Prod.ext (ρ.column_injective hn) hd
  rw [ρ.table_injective ht, List.map_injective_iff.mpr hg hc]

namespace Fragment

mutual
theorem eq_of_relabel_eq : ∀ a b : Fragment, a.relabel ρ = b.relabel ρ → a = b
  | column .., b, h => by
    cases b <;> simp only [relabel, reduceCtorEq, column.injEq] at h
    obtain ⟨ht, hn, rfl⟩ := h
    rw [ρ.table_injective ht, ρ.column_injective hn]
  | constant .., b, h => by
    cases b <;> simp only [relabel, reduceCtorEq, constant.injEq] at h
    obtain ⟨hv, rfl⟩ := h
    rw [ρ.constant_injective hv]
  | parameter .., b, h => by
    cases b <;> simp only [relabel, reduceCtorEq, parameter.injEq] at h
    obtain ⟨hn, rfl⟩ := h
    rw [ρ.parameter_injective hn]
  | binary l _ r _, b, h => by
    cases b <;> simp only [relabel, reduceCtorEq, binary.injEq] at h
    obtain ⟨hl, rfl, hr, rfl⟩ := h
    rw [eq_of_relabel_eq l _ hl, eq_of_relabel_eq r _ hr]
  | call _ args _, b, h => by
    cases b <;> simp only [relabel, reduceCtorEq, call.injEq] at h
    obtain ⟨rfl, ha, rfl⟩ := h
    rw [eq_of_relabelAll_eq args _ ha]
  | entity _, b, h => by
    cases b <;> simp only [relabel, reduceCtorEq, entity.injEq] at h
    rw [EntityColumns.relabel_injective ρ h]
theorem eq_of_relabelAll_eq : ∀ as bs : List Fragment, relabelAll ρ as = relabelAll ρ bs → as = bs
  | [], bs, h => by
    cases bs with
    | nil => rfl
    | cons => simp [relabelAll] at h
  | a :: as, bs, h => by
    cases bs with
    | nil => simp [relabelAll] at h
    | cons b bs =>
      simp only [relabelAll, List.cons.injEq] at h
      rw [eq_of_relabel_eq a b h.1, eq_of_relabelAll_eq as bs h.2]
end

theorem relabel_inj {a b : Fragment} : a.relabel ρ = b.relabel ρ ↔ a = b :=
  ⟨eq_of_relabel_eq ρ a b, congrArg _⟩

end Fragment

def Slot.relabel (f : Relabelling) (slot : Slot) : Slot := ⟨slot.fragment.relabel f, slot.type⟩

def Mapping.relabel (f : Relabelling) (m : Mapping) : Mapping :=
  m.map Function.injective_id (Fragment.relabel f)

namespace Select

/-- Every fragment that a select has is relabelled. The numbers of the slots are kept. -/
def relabel (f : Relabelling) (s : Select) : Select :=
  { s with mapping := s.mapping.relabel f, projection := s.projection.map (Slot.relabel f) }

theorem get?_mapping_relabel (f : Relabelling) (s : Select) (a : Address) :
    (s.relabel f).mapping.get? a = (s.mapping.get? a).map (Fragment.relabel f) :=
  OrderedMap.get?_map Function.injective_id (Fragment.relabel f) s.mapping a

theorem fragmentAt_relabel (f : Relabelling) (s : Select) (a : Address) :
    (s.relabel f).fragmentAt a = (s.fragmentAt a).map (Fragment.relabel f) := by
  rw [fragmentAt, fragmentAt, get?_mapping_relabel]
  cases s.mapping.get? a <;> rfl

theorem project_rename (s : Select) (a : Fragment) (type : DataType) :
    (s.relabel ρ).project (a.relabel ρ) type =
      ((s.project a type).1, (s.project a type).2.relabel ρ) := by
  have hp : (fun slot : Slot => decide (slot.fragment = a.relabel ρ)) ∘ Slot.relabel ρ =
      fun slot => decide (slot.fragment = a) :=
    funext fun slot => decide_eq_decide.mpr (Fragment.relabel_inj ρ)
  have hi : (s.relabel ρ).projection.findIdx? (·.fragment = a.relabel ρ) =
      s.projection.findIdx? (·.fragment = a) := by
    rw [relabel, List.findIdx?_map, hp]
  rw [project, project, hi]
  cases s.projection.findIdx? (·.fragment = a) with
  | some slot => rfl
  | none => simp [relabel, Slot.relabel]

theorem projectBuffer_rename (s : Select) (buffer : Reference) :
    (s.relabel ρ).projectBuffer buffer =
      ((s.projectBuffer buffer).1, (s.projectBuffer buffer).2.relabel ρ) := by
  unfold projectBuffer
  cases buffer.target with
  | address a =>
    simp only [fragmentAt_relabel]
    cases s.fragmentAt a with
    | ok a => simp only [Except.map, project_rename]
    | error e => rfl
  | slot i =>
    have hl : (s.relabel ρ).projection.length = s.projection.length := List.length_map _
    simp only [hl]
    split <;> rfl

theorem place_rename (s : Select) (address : Address) (a : Fragment) :
    (s.relabel ρ).place address (a.relabel ρ) = (s.place address a).relabel ρ := by
  simp only [place, Fragment.type_relabel, project_rename]
  rfl

theorem foldl_place_rename (es : List (Address × Fragment)) (s : Select) :
    (es.map fun e => (e.1, e.2.relabel ρ)).foldl (fun s e => s.place e.1 e.2) (s.relabel ρ) =
      (es.foldl (fun s e => s.place e.1 e.2) s).relabel ρ := by
  induction es generalizing s with
  | nil => rfl
  | cons e es ih =>
    rw [List.map_cons, List.foldl_cons, List.foldl_cons, ← ih, ← place_rename]

theorem flatten_rename (s : Select) : (s.relabel ρ).flatten = s.flatten.relabel ρ :=
  foldl_place_rename ρ s.mapping.entries { s with slots := ∅ }

/-- The log of a flattening tells only how much there is. -/
theorem flattened_relabel (f : Relabelling) (s : Select) : (s.relabel f).flattened = s.flattened := by
  simp [flattened, relabel]

end Select

end QueryShaping
