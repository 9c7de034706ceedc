import Mathlib.Data.List.Forall2
import QueryShaping.Proofs.Binding.Visits
import QueryShaping.Proofs.Shape.Exposure

/-!
The nodes of bound shapes. Main statements: the nodes of a shape bound on the server come from the
positions that the pass goes through (`nodes_addressed`), those of a shape bound on the client from
the nodes that stand below no accepted scalar (`nodes_residue`), and these demand the slots
(`demands_eq`). The references that such a shape has in place of scalars answer the largest accepted
parts, in order (`bindings_residue`).
-/

namespace QueryShaping

section lists

variable {α β γ : Type} {R : α → β → Prop}

theorem map_eq_map_of_forall₂ {f : α → γ} {g : β → γ} {as : List α} {bs : List β}
    (h : List.Forall₂ R as bs) (hR : ∀ a b, R a b → f a = g b) : as.map f = bs.map g := by
  rw [← List.forall₂_eq_eq_eq, List.forall₂_map_left_iff, List.forall₂_map_right_iff]
  exact h.imp hR

theorem forall₂_filterMap {f : γ → Option α} {g : γ → Option β} {l : List γ}
    (h : ∀ c ∈ l, Option.Rel R (f c) (g c)) :
    List.Forall₂ R (l.filterMap f) (l.filterMap g) := by
  induction l with
  | nil => exact .nil
  | cons c l ih =>
    obtain ⟨hc, hl⟩ := List.forall_mem_cons.mp h
    rw [List.filterMap_cons, List.filterMap_cons]
    cases hf : f c <;> cases hg : g c <;> rw [hf, hg] at hc <;> cases hc
    · exact ih hl
    · case some.some.some hr => exact .cons hr (ih hl)

end lists

namespace Shape

def binding? : Shape → Option Reference
  | .reference r => some r
  | .construct .. | .memberInit .. | .entity .. | .attach .. | .parameter _ | .group _
  | .constant .. | .column .. | .binary .. | .call .. | .lookup _ => none

/-- The references that stand for scalars, from left to right. The buffers of entities are
others. -/
def bindings (s : Shape) : List Reference := s.nodes.filterMap binding?

/-- The fragments that the entities of a shape are read from. -/
def buffered (behind? : Reference → Option Fragment) (s : Shape) : List Fragment :=
  s.nodes.filterMap fun n => n.buffer?.bind behind?

theorem mem_buffered {behind? : Reference → Option Fragment} {s : Shape} {type : String}
    {buffer : Reference} {f : Fragment} (hn : .entity type buffer ∈ s.nodes)
    (hf : behind? buffer = some f) : f ∈ s.buffered behind? :=
  List.mem_filterMap.mpr ⟨_, hn, hf⟩

end Shape

namespace Binding

namespace Server

variable {store : Store} (query : QueryId)

theorem addressed_of_isScalar (path : Address) {s : Shape} (h : s.isScalar) :
    addressed query path s = .reference ⟨query, .address path, s.type⟩ := by
  cases s with
  | parameter p =>
    have hp : p.type.isEnumerable = false := by simpa [Shape.isScalar] using h
    simp [addressed, hp, Shape.type]
  | constant | column | binary | call => rfl
  | construct | memberInit | entity | attach | group | reference | lookup => cases h

mutual
theorem nodes_addressed : ∀ (s : Shape) (path : Address), obstacles store path s = [] →
    (addressed query path s).nodes = (visited path s).map fun p => addressed query p.1 p.2
  | .construct _ args, path, ho => by
    rw [addressed, Shape.nodes, nodes_addressedArgs args path ho, visited, List.map_cons, addressed]
  | .memberInit _ args assignments, path, ho => by
    obtain ⟨hoa, hof⟩ := List.append_eq_nil_iff.mp ho
    rw [addressed, Shape.nodes, nodes_addressedArgs args path hoa,
      nodes_addressedFields assignments path hof, visited, List.map_cons, List.map_append,
      addressed]
  | .attach .., _, ho => by cases ho
  | .parameter p, path, _ => by
    by_cases hp : p.type.isEnumerable <;> simp [addressed, visited, Shape.nodes, hp]
  | .entity .., _, _ | .group _, _, _ | .constant .., _, _ | .column .., _, _ | .binary .., _, _
  | .call .., _, _ | .reference _, _, _ | .lookup _, _, _ => rfl
theorem nodes_addressedArgs : ∀ (args : Args Shape) (path : Address),
    obstaclesArgs store path args = [] → Shape.nodesArgs (addressedArgs query path args) =
      (visitedArgs path args).map fun p => addressed query p.1 p.2
  | .positional [], _, _ => rfl
  | .positional (_ :: _), _, ho => by cases ho
  | .named fs, path, ho => nodes_addressedFields fs path ho
theorem nodes_addressedFields : ∀ (fs : List (Member × Shape)) (path : Address),
    obstaclesFields store path fs = [] → Shape.nodesFields (addressedFields query path fs) =
      (visitedFields path fs).map fun p => addressed query p.1 p.2
  | [], _, _ => rfl
  | (m, s) :: rest, path, ho => by
    obtain ⟨hos, hor⟩ := List.append_eq_nil_iff.mp ho
    rw [addressedFields, Shape.nodesFields, nodes_addressed s (path.child m) hos,
      nodes_addressedFields rest path hor, visitedFields, List.map_append]
end

end Server

namespace Client

variable (store : Store) (behind? : Reference → Option Fragment)

/-- The store has a fragment for the scalar, so that the pass does not go on below it. -/
def accepts (s : Shape) : Bool := s.isScalar && (store s).isSome

/-- The slot that a node demands, its parts aside. -/
def demand? : Shape → Option Slot
  | .entity _ buffer => (behind? buffer).map (⟨·, .valueBuffer⟩)
  | s => if s.isScalar then (store s).map (⟨·, s.type⟩) else none

section demands

variable {store behind?}

theorem demand?_of_isScalar {s : Shape} (h : s.isScalar) :
    demand? store behind? s = (store s).map (⟨·, s.type⟩) := by
  cases s <;> simp_all [demand?, Shape.isScalar]

theorem demandsAll_eq (ss : List Shape) :
    demandsAll store behind? ss = ss.flatMap (demands store behind?) := by
  induction ss with
  | nil => rfl
  | cons s ss ih => rw [demandsAll, ih, List.flatMap_cons]

theorem demandsFields_eq (fs : List (Member × Shape)) :
    demandsFields store behind? fs = (fs.map Prod.snd).flatMap (demands store behind?) := by
  induction fs with
  | nil => rfl
  | cons f fs ih => rw [demandsFields, ih, List.map_cons, List.flatMap_cons]

theorem demandsArgs_eq (args : Args Shape) :
    demandsArgs store behind? args = args.values.flatMap (demands store behind?) := by
  cases args with
  | positional values => exact demandsAll_eq values
  | named fields => exact demandsFields_eq fields

theorem demand_eq {s : Shape} (h : s.isScalar) (rest : List Slot) :
    demand store s rest =
      (demand? store behind? s).toList ++ if accepts store s then [] else rest := by
  cases hs : store s <;> simp [demand, demand?_of_isScalar h, accepts, h, hs]

/-- A node demands its own slot and then, unless it is accepted, those of its direct parts. -/
theorem demands_node (s : Shape) : demands store behind? s =
    (demand? store behind? s).toList ++
      if accepts store s then [] else s.children.flatMap (demands store behind?) := by
  cases s with
  | construct type args => exact demandsArgs_eq args
  | memberInit type args assignments =>
    have ha := @demandsArgs_eq store behind? args
    have hf := @demandsFields_eq store behind? assignments
    rw [demands, ha, hf, ← List.flatMap_append]
    rfl
  | attach e navigation value => simp [demands, demand?, accepts, Shape.isScalar, Shape.children]
  | entity type buffer =>
    cases hb : behind? buffer <;>
      simp [demands, demand?, accepts, Shape.isScalar, hb, Shape.children]
  | parameter p =>
    by_cases hp : p.type.isEnumerable
    · simp [demands, demand?, accepts, Shape.isScalar, Shape.children, hp]
    · simp only [demands, hp]
      exact demand_eq (by simp [Shape.isScalar, hp]) []
  | constant | column => exact demand_eq rfl []
  | binary left op right type =>
    rw [demands, demand_eq rfl, Shape.children, List.flatMap_cons, List.flatMap_singleton]
  | call function args type => rw [demands, demand_eq rfl, demandsAll_eq, Shape.children]
  | group | reference | lookup => rfl

theorem demands_eq (s : Shape) : demands store behind? s =
    (s.exposed (accepts store)).filterMap (demand? store behind?) := by
  induction s using Shape.children_induction with
  | node s ih =>
    rw [demands_node, Shape.exposed_eq, List.filterMap_cons]
    have hc : s.children.flatMap (demands store behind?) =
        (s.children.flatMap (Shape.exposed (accepts store))).filterMap (demand? store behind?) := by
      rw [List.filterMap_flatMap]
      exact List.flatMap_congr ih
    rw [hc]
    cases demand? store behind? s <;> cases accepts store s <;> simp

/-- A slot is demanded by an entity or by one of the largest accepted parts. -/
theorem demand_cases {s : Shape} {slot : Slot} (h : slot ∈ demands store behind? s) :
    (slot.fragment ∈ s.buffered behind? ∧ slot.type = .valueBuffer) ∨
    ∃ n ∈ s.outermost (accepts store), store n = some slot.fragment ∧ slot.type = n.type := by
  rw [demands_eq] at h
  obtain ⟨n, hn, hd⟩ := List.mem_filterMap.mp h
  by_cases hs : n.isScalar
  · rw [demand?_of_isScalar hs] at hd
    obtain ⟨f, hf, rfl⟩ := Option.map_eq_some_iff.mp hd
    have ha : accepts store n := by simp [accepts, hs, hf]
    exact .inr ⟨n, List.mem_filter.mpr ⟨hn, ha⟩, hf, rfl⟩
  · cases n with
    | entity type buffer =>
      obtain ⟨f, hf, rfl⟩ := Option.map_eq_some_iff.mp hd
      exact .inl ⟨Shape.mem_buffered (Shape.nodes_of_exposed _ hn) hf, rfl⟩
    | _ => simp [demand?, hs] at hd

end demands

section residue

variable {store behind?} {refer : Fragment → DataType → Reference}

theorem eq_none_of_not_accepts {s : Shape} (h : ¬ accepts store s) (hs : s.isScalar) :
    store s = none := by
  simpa [accepts, hs] using h

theorem residue_of_accepts {s : Shape} (h : accepts store s) :
    ∃ f, store s = some f ∧ residue store behind? refer s = .reference (refer f s.type) := by
  obtain ⟨hs, hf⟩ := Bool.and_eq_true_iff.mp h
  obtain ⟨f, hf⟩ := Option.isSome_iff_exists.mp hf
  refine ⟨f, hf, ?_⟩
  cases s with
  | parameter p =>
    have hp : p.type.isEnumerable = false := by simpa [Shape.isScalar] using hs
    simp [residue, hp, replace, hf]
  | constant | column | binary | call => simp only [residue, replace, hf]
  | construct | memberInit | entity | attach | group | reference | lookup => cases hs

theorem residueAll_eq (ss : List Shape) :
    residueAll store behind? refer ss = ss.map (residue store behind? refer) := by
  induction ss with
  | nil => rfl
  | cons s ss ih => rw [residueAll, ih, List.map_cons]

theorem map_snd_residueFields (fs : List (Member × Shape)) :
    (residueFields store behind? refer fs).map Prod.snd =
      (fs.map Prod.snd).map (residue store behind? refer) := by
  induction fs with
  | nil => rfl
  | cons f fs ih => rw [residueFields, List.map_cons, ih, List.map_cons, List.map_cons]

theorem values_residueArgs (args : Args Shape) :
    (residueArgs store behind? refer args).values =
      args.values.map (residue store behind? refer) := by
  cases args with
  | positional values => exact residueAll_eq values
  | named fields => exact map_snd_residueFields fields

theorem children_residue {s : Shape} (h : ¬ accepts store s) :
    (residue store behind? refer s).children = s.children.map (residue store behind? refer) := by
  have hn : s.isScalar → store s = none := eq_none_of_not_accepts h
  cases s with
  | construct type args => exact values_residueArgs args
  | memberInit type args assignments =>
    rw [residue, Shape.children, values_residueArgs, map_snd_residueFields, ← List.map_append]
    rfl
  | entity type buffer =>
    rw [residue]
    cases behind? buffer <;> rfl
  | parameter p =>
    by_cases hp : p.type.isEnumerable
    · simp [residue, hp, Shape.children]
    · simp [residue, hp, replace, hn (by simp [Shape.isScalar, hp]), Shape.children]
  | constant | column => simp [residue, replace, hn rfl, Shape.children]
  | binary => simp [residue, replace, hn rfl, Shape.children]
  | call => simp [residue, replace, hn rfl, Shape.children, residueAll_eq]
  | attach | group | reference | lookup => rfl

theorem nodes_residue (s : Shape) : (residue store behind? refer s).nodes =
    (s.exposed (accepts store)).map (residue store behind? refer) := by
  induction s using Shape.children_induction with
  | node s ih =>
    rw [Shape.exposed_eq, List.map_cons]
    by_cases h : accepts store s
    · obtain ⟨f, -, hr⟩ := @residue_of_accepts store behind? refer _ h
      rw [hr, if_pos h]
      rfl
    · rw [Shape.nodes_eq, children_residue h, if_neg h, List.flatMap_map, List.map_flatMap]
      exact congrArg (_ :: ·) (List.flatMap_congr ih)

theorem binding?_residue {s : Shape} (h : ¬ accepts store s) (hr : ∀ r, s ≠ .reference r) :
    (residue store behind? refer s).binding? = none := by
  have hn : s.isScalar → store s = none := eq_none_of_not_accepts h
  cases s with
  | reference r => exact absurd rfl (hr r)
  | entity type buffer =>
    rw [residue]
    cases behind? buffer <;> rfl
  | parameter p =>
    by_cases hp : p.type.isEnumerable
    · simp [residue, hp, Shape.binding?]
    · simp [residue, hp, replace, hn (by simp [Shape.isScalar, hp]), Shape.binding?]
  | constant | column | binary | call => simp [residue, replace, hn rfl, Shape.binding?]
  | construct | memberInit | attach | group | lookup => rfl

/-- One reference for each of the largest accepted parts, in order, and no other. -/
theorem bindings_residue {s : Shape} (hr : ∀ r, .reference r ∉ s.nodes) :
    List.Forall₂
      (fun r n => ∃ slot ∈ demands store behind? s,
        store n = some slot.fragment ∧ r = answer refer slot)
      (residue store behind? refer s).bindings (s.outermost (accepts store)) := by
  rw [Shape.bindings, nodes_residue, List.filterMap_map, Shape.outermost,
    ← List.filterMap_eq_filter]
  refine forall₂_filterMap fun n hn => ?_
  by_cases h : accepts store n
  · obtain ⟨f, hf, hres⟩ := @residue_of_accepts store behind? refer _ h
    have hd : demand? store behind? n = some ⟨f, n.type⟩ := by
      rw [demand?_of_isScalar (Bool.and_eq_true_iff.mp h).1, hf, Option.map_some]
    simp only [Function.comp_apply, hres, Shape.binding?, Option.guard, h, if_true]
    refine .some ⟨⟨f, n.type⟩, ?_, hf, rfl⟩
    rw [demands_eq]
    exact List.mem_filterMap.mpr ⟨n, hn, hd⟩
  · have hnr : ∀ r, n ≠ .reference r := by
      rintro r rfl
      exact hr r (Shape.nodes_of_exposed _ hn)
    simp only [Function.comp_apply, binding?_residue h hnr, Option.guard, h]
    exact .none

end residue

end Client

end Binding

end QueryShaping
