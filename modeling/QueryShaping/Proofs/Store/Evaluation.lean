import Mathlib
import QueryShaping.Proofs.Shape.Nodes
import QueryShaping.Store

/-!
What a store of functions evaluates. Main statements: it has fragments for the evaluable shapes and
for no others (`exists_fragment?_iff`), a fragment reads back as its shape with the functions in
upper case (`scalar?_of_fragment?`), so that only the case of functions is lost (`fragment?_inj`),
and a fragment has the types of its shape, node by node (`types_of_fragment?`).
-/

namespace QueryShaping

theorem upperCase_upperCase (name : String) : upperCase (upperCase name) = upperCase name := by
  simp [upperCase, Function.comp_def]

namespace Shape

mutual
/-- The shape with the names of its functions in upper case. -/
def upper : Shape → Shape
  | .construct type args => .construct type (upperArgs args)
  | .memberInit type args assignments =>
    .memberInit type (upperArgs args) (upperFields assignments)
  | .attach e navigation value => .attach (upper e) navigation (upper value)
  | .binary left op right type => .binary (upper left) op (upper right) type
  | .call function args type => .call (upperCase function) (upperAll args) type
  | .entity type buffer => .entity type buffer
  | .parameter p => .parameter p
  | .group p => .group p
  | .constant value type => .constant value type
  | .column table name type => .column table name type
  | .reference r => .reference r
  | .lookup p => .lookup p
def upperArgs : Args Shape → Args Shape
  | .positional values => .positional (upperAll values)
  | .named fields => .named (upperFields fields)
def upperAll : List Shape → List Shape
  | [] => []
  | s :: rest => upper s :: upperAll rest
def upperFields : List (Member × Shape) → List (Member × Shape)
  | [] => []
  | (m, s) :: rest => (m, upper s) :: upperFields rest
end

/-- Operations and calls say themselves what they are of. -/
def isOperation : Shape → Bool
  | .binary .. | .call .. => true
  | .construct .. | .memberInit .. | .entity .. | .attach .. | .parameter _ | .group _
  | .constant .. | .column .. | .reference _ | .lookup _ => false

end Shape

namespace Fragment

mutual
/-- The scalar that a fragment evaluates. The columns of an entity are none. -/
def scalar? : Fragment → Option Shape
  | .column table name type => some (.column table name type)
  | .constant value type => some (.constant value type)
  | .parameter name type => some (.parameter ⟨name, type⟩)
  | .binary left op right type => do
    let left ← scalar? left
    let right ← scalar? right
    return .binary left op right type
  | .call function args type => do
    let args ← scalars? args
    return .call function args type
  | .entity _ => none
def scalars? : List Fragment → Option (List Shape)
  | [] => some []
  | f :: rest => do
    let s ← scalar? f
    let ss ← scalars? rest
    return s :: ss
end

mutual
/-- The nodes of a fragment, each before its operands. -/
def nodes : Fragment → List Fragment
  | f@(.binary left _ right _) => f :: (nodes left ++ nodes right)
  | f@(.call _ args _) => f :: nodesAll args
  | f@(.column ..) | f@(.constant ..) | f@(.parameter ..) | f@(.entity _) => [f]
def nodesAll : List Fragment → List Fragment
  | [] => []
  | f :: rest => nodes f ++ nodesAll rest
end

end Fragment

namespace StoreFunctions

/-- What a store of functions evaluates: columns, constants and parameters of store types,
operations on what it evaluates, and calls on it of functions that it has, in whichever case they
are written. -/
inductive Evaluable (functions : StoreFunctions) : Shape → Prop
  | column {table name : String} {type : DataType} (ht : type.isStore) :
    Evaluable functions (.column table name type)
  | constant {value : Value} {type : DataType} (ht : type.isStore) :
    Evaluable functions (.constant value type)
  | parameter {p : Parameter} (ht : p.type.isStore) : Evaluable functions (.parameter p)
  | binary {left right : Shape} {op : Operator} {type : DataType}
    (hl : Evaluable functions left) (hr : Evaluable functions right) :
    Evaluable functions (.binary left op right type)
  | call {function : String} {args : List Shape} {type : DataType}
    (hf : upperCase function ∈ functions.names) (ha : ∀ a ∈ args, Evaluable functions a) :
    Evaluable functions (.call function args type)

variable {functions : StoreFunctions}

/-- What holds of columns, constants and parameters with their fragments, and of operations and
calls if it holds of their operands. -/
structure Hereditary (functions : StoreFunctions) (P : Shape → Fragment → Prop) : Prop where
  column (table name : String) (type : DataType) (ht : type.isStore) :
    P (.column table name type) (.column table name type)
  constant (value : Value) (type : DataType) (ht : type.isStore) :
    P (.constant value type) (.constant value type)
  parameter (p : Parameter) (ht : p.type.isStore) : P (.parameter p) (.parameter p.name p.type)
  binary (left right : Shape) (l r : Fragment) (op : Operator) (type : DataType) (hl : P left l)
    (hr : P right r) : P (.binary left op right type) (.binary l op r type)
  call (function : String) (args : List Shape) (gs : List Fragment) (type : DataType)
    (hf : upperCase function ∈ functions.names) (ha : List.Forall₂ P args gs) :
    P (.call function args type) (.call (upperCase function) gs type)

mutual
theorem Hereditary.fragment? {P : Shape → Fragment → Prop} (hP : Hereditary functions P) :
    ∀ {s : Shape} {g : Fragment}, functions.fragment? s = some g → P s g
  | .column table name type, g, h => by
    simp only [StoreFunctions.fragment?, Option.ite_none_right_eq_some, Option.some.injEq] at h
    obtain ⟨ht, rfl⟩ := h
    exact hP.column table name type ht
  | .constant value type, g, h => by
    simp only [StoreFunctions.fragment?, Option.ite_none_right_eq_some, Option.some.injEq] at h
    obtain ⟨ht, rfl⟩ := h
    exact hP.constant value type ht
  | .parameter p, g, h => by
    simp only [StoreFunctions.fragment?, Option.ite_none_right_eq_some, Option.some.injEq] at h
    obtain ⟨ht, rfl⟩ := h
    exact hP.parameter p ht
  | .binary left op right type, g, h => by
    simp only [StoreFunctions.fragment?, Option.bind_eq_bind, Option.bind_eq_some_iff] at h
    obtain ⟨l, hl, r, hr, h⟩ := h
    cases h
    exact hP.binary left right l r op type (hP.fragment? hl) (hP.fragment? hr)
  | .call function args type, g, h => by
    simp only [StoreFunctions.fragment?, Option.bind_eq_bind, Option.ite_none_right_eq_some,
      Option.bind_eq_some_iff] at h
    obtain ⟨hf, gs, hg, h⟩ := h
    cases h
    have hf : upperCase function ∈ functions.names := by simpa [knows] using hf
    exact hP.call function args gs type hf (hP.fragments? hg)
  | .construct .., _, h | .memberInit .., _, h | .entity .., _, h | .attach .., _, h
  | .group _, _, h | .reference _, _, h | .lookup _, _, h => by cases h
theorem Hereditary.fragments? {P : Shape → Fragment → Prop} (hP : Hereditary functions P) :
    ∀ {ss : List Shape} {gs : List Fragment}, functions.fragments? ss = some gs →
      List.Forall₂ P ss gs
  | [], _, h => by
    cases h
    exact .nil
  | s :: rest, gs, h => by
    simp only [StoreFunctions.fragments?, Option.bind_eq_bind, Option.bind_eq_some_iff] at h
    obtain ⟨g, hs, hs', hr, h⟩ := h
    cases h
    exact .cons (hP.fragment? hs) (hP.fragments? hr)
end

section acceptance

theorem Evaluable.of_fragment? {s : Shape} {g : Fragment} (h : functions.fragment? s = some g) :
    functions.Evaluable s := by
  have hP : Hereditary functions fun s _ => functions.Evaluable s :=
    { column := fun _ _ _ ht => .column ht
      constant := fun _ _ ht => .constant ht
      parameter := fun _ ht => .parameter ht
      binary := fun _ _ _ _ _ _ hl hr => .binary hl hr
      call := fun _ args gs _ hf ha => .call hf fun a hm => by
        obtain ⟨i, hi, rfl⟩ := List.getElem_of_mem hm
        exact (List.forall₂_iff_get.mp ha).2 i hi (ha.length_eq ▸ hi) }
  exact hP.fragment? h

theorem exists_fragments? {ss : List Shape} (h : ∀ s ∈ ss, ∃ g, functions.fragment? s = some g) :
    ∃ gs, functions.fragments? ss = some gs := by
  induction ss with
  | nil => exact ⟨[], rfl⟩
  | cons s ss ih =>
    obtain ⟨⟨g, hg⟩, hr⟩ := List.forall_mem_cons.mp h
    obtain ⟨gs, hgs⟩ := ih hr
    exact ⟨g :: gs, by rw [fragments?, hg, hgs]; rfl⟩

theorem Evaluable.exists_fragment? {s : Shape} (h : functions.Evaluable s) :
    ∃ g, functions.fragment? s = some g := by
  induction h with
  | column ht | constant ht | parameter ht => exact ⟨_, if_pos ht⟩
  | binary _ _ ihl ihr =>
    obtain ⟨l, hl⟩ := ihl
    obtain ⟨r, hr⟩ := ihr
    exact ⟨_, by rw [fragment?, hl, hr]; rfl⟩
  | call hf _ iha =>
    obtain ⟨gs, hg⟩ := exists_fragments? iha
    exact ⟨_, by rw [fragment?, knows, if_pos (List.contains_iff_mem.mpr hf), hg]; rfl⟩

theorem exists_fragment?_iff {s : Shape} :
    (∃ g, functions.fragment? s = some g) ↔ functions.Evaluable s :=
  ⟨fun ⟨_, h⟩ => .of_fragment? h, Evaluable.exists_fragment?⟩

end acceptance

section reading

theorem scalars?_of_forall₂ {ss : List Shape} {gs : List Fragment}
    (h : List.Forall₂ (fun s g => g.scalar? = some s.upper) ss gs) :
    Fragment.scalars? gs = some (Shape.upperAll ss) := by
  induction h with
  | nil => rfl
  | cons hs _ ih =>
    rw [Fragment.scalars?, hs, ih]
    rfl

/-- A fragment reads back as the shape that it was made of. -/
theorem scalar?_of_fragment? {s : Shape} {g : Fragment} (h : functions.fragment? s = some g) :
    g.scalar? = some s.upper := by
  have hP : Hereditary functions fun s g => g.scalar? = some s.upper :=
    { column := fun _ _ _ _ => rfl
      constant := fun _ _ _ => rfl
      parameter := fun _ _ => rfl
      binary := fun _ _ _ _ _ _ hl hr => by
        rw [Fragment.scalar?, hl, hr]
        rfl
      call := fun _ _ _ _ _ ha => by
        rw [Fragment.scalar?, scalars?_of_forall₂ ha]
        rfl }
  exact hP.fragment? h

mutual
theorem fragment?_upper : ∀ s : Shape, functions.fragment? s.upper = functions.fragment? s
  | .binary left _ right _ => by
    rw [Shape.upper, fragment?, fragment?, fragment?_upper left, fragment?_upper right]
  | .call _ args _ => by
    rw [Shape.upper, fragment?, fragment?, fragments?_upper args, knows, knows,
      upperCase_upperCase]
  | .construct .. | .memberInit .. | .entity .. | .attach .. | .parameter _ | .group _
  | .constant .. | .column .. | .reference _ | .lookup _ => rfl
theorem fragments?_upper : ∀ ss : List Shape,
    functions.fragments? (Shape.upperAll ss) = functions.fragments? ss
  | [] => rfl
  | s :: rest => by
    rw [Shape.upperAll, fragments?, fragments?, fragment?_upper s, fragments?_upper rest]
end

/-- Only the case of functions is lost. -/
theorem fragment?_inj {s s' : Shape} {g g' : Fragment} (h : functions.fragment? s = some g)
    (h' : functions.fragment? s' = some g') : g = g' ↔ s.upper = s'.upper := by
  constructor
  · rintro rfl
    have hs : g.scalar? = some s.upper := scalar?_of_fragment? h
    rw [scalar?_of_fragment? h'] at hs
    exact (Option.some.inj hs).symm
  · intro hu
    rw [← fragment?_upper, hu, fragment?_upper, h'] at h
    exact (Option.some.inj h).symm

end reading

section types

theorem type_of_fragment? {s : Shape} {g : Fragment} (h : functions.fragment? s = some g) :
    g.type = s.type := by
  have hP : Hereditary functions fun s g => g.type = s.type :=
    { column := fun _ _ _ _ => rfl
      constant := fun _ _ _ => rfl
      parameter := fun _ _ => rfl
      binary := fun _ _ _ _ _ _ _ _ => rfl
      call := fun _ _ _ _ _ _ => rfl }
  exact hP.fragment? h

theorem types_nodesAll {ss : List Shape} {gs : List Fragment}
    (h : List.Forall₂ (fun s g => g.nodes.map Fragment.type = s.nodes.map Shape.type) ss gs) :
    (Fragment.nodesAll gs).map Fragment.type = (Shape.nodesAll ss).map Shape.type := by
  induction h with
  | nil => rfl
  | cons hs _ ih =>
    rw [Fragment.nodesAll, Shape.nodesAll, List.map_append, List.map_append, hs, ih]

theorem types_of_fragment? {s : Shape} {g : Fragment} (h : functions.fragment? s = some g) :
    g.nodes.map Fragment.type = s.nodes.map Shape.type := by
  have hP : Hereditary functions fun s g =>
      g.nodes.map Fragment.type = s.nodes.map Shape.type :=
    { column := fun _ _ _ _ => rfl
      constant := fun _ _ _ => rfl
      parameter := fun _ _ => rfl
      binary := fun _ _ _ _ _ _ hl hr => by
        rw [Fragment.nodes, Shape.nodes, List.map_cons, List.map_cons, List.map_append,
          List.map_append, hl, hr]
        rfl
      call := fun _ _ _ _ _ ha => by
        rw [Fragment.nodes, Shape.nodes, List.map_cons, List.map_cons, types_nodesAll ha]
        rfl }
  exact hP.fragment? h

/-- Of what is evaluated only operations and calls can be of a type that is no store type. -/
theorem Evaluable.isStore_or {s : Shape} (h : functions.Evaluable s) :
    ∀ n ∈ s.nodes, n.type.isStore ∨ n.isOperation := by
  induction h with
  | column ht | constant ht | parameter ht => exact List.forall_mem_singleton.mpr (.inl ht)
  | binary _ _ ihl ihr =>
    exact List.forall_mem_cons.mpr ⟨.inr rfl, List.forall_mem_append.mpr ⟨ihl, ihr⟩⟩
  | call _ _ iha =>
    rw [Shape.nodes, Shape.nodesAll_eq]
    refine List.forall_mem_cons.mpr ⟨.inr rfl, fun n hn => ?_⟩
    obtain ⟨a, ha, hn⟩ := List.mem_flatMap.mp hn
    exact iha a ha n hn

theorem nodes_isStore_iff {s : Shape} {g : Fragment} (h : functions.fragment? s = some g) :
    (∀ m ∈ g.nodes, m.type.isStore) ↔ ∀ n ∈ s.nodes, n.isOperation → n.type.isStore := by
  have ht : (∀ m ∈ g.nodes, m.type.isStore) ↔ ∀ n ∈ s.nodes, n.type.isStore := by
    have hg := List.forall_mem_map (f := Fragment.type) (l := g.nodes)
      (P := fun type => type.isStore = true)
    rw [types_of_fragment? h, List.forall_mem_map] at hg
    exact hg.symm
  rw [ht]
  refine ⟨fun hs n hn _ => hs n hn, fun ho n hn => ?_⟩
  obtain hs | hs := (Evaluable.of_fragment? h).isStore_or n hn
  · exact hs
  · exact ho n hn hs

end types

end StoreFunctions

end QueryShaping
