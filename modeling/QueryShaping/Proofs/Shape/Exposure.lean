import Mathlib.Data.List.Basic
import QueryShaping.Proofs.Shape.Nodes

/-!
Nodes that stand below none with a given property. Main statements: such nodes are a shape itself
and, unless it has the property, those of its direct parts (`exposed_eq`); what holds of a shape
whenever it holds of its direct parts holds of every shape (`children_induction`).
-/

namespace QueryShaping.Shape

section induction

variable {P : Shape → Prop}

mutual
@[elab_as_elim]
theorem children_induction (node : ∀ s : Shape, (∀ c ∈ s.children, P c) → P s) : ∀ s : Shape, P s
  | .construct type args => node (.construct type args) (children_inductionArgs node args)
  | .memberInit type args assignments =>
    node (.memberInit type args assignments) <| List.forall_mem_append.mpr
      ⟨children_inductionArgs node args, children_inductionFields node assignments⟩
  | .attach e navigation value =>
    node (.attach e navigation value) <| List.forall_mem_cons.mpr
      ⟨children_induction node e, List.forall_mem_singleton.mpr (children_induction node value)⟩
  | .binary left op right type =>
    node (.binary left op right type) <| List.forall_mem_cons.mpr
      ⟨children_induction node left, List.forall_mem_singleton.mpr (children_induction node right)⟩
  | .call function args type =>
    node (.call function args type) (children_inductionAll node args)
  | .entity type buffer => node (.entity type buffer) (List.forall_mem_nil _)
  | .parameter p => node (.parameter p) (List.forall_mem_nil _)
  | .group p => node (.group p) (List.forall_mem_nil _)
  | .constant value type => node (.constant value type) (List.forall_mem_nil _)
  | .column table name type => node (.column table name type) (List.forall_mem_nil _)
  | .reference r => node (.reference r) (List.forall_mem_nil _)
  | .lookup p => node (.lookup p) (List.forall_mem_nil _)
theorem children_inductionArgs (node : ∀ s : Shape, (∀ c ∈ s.children, P c) → P s) :
    ∀ args : Args Shape, ∀ c ∈ args.values, P c
  | .positional values => children_inductionAll node values
  | .named fields => children_inductionFields node fields
theorem children_inductionAll (node : ∀ s : Shape, (∀ c ∈ s.children, P c) → P s) :
    ∀ ss : List Shape, ∀ c ∈ ss, P c
  | [] => List.forall_mem_nil _
  | s :: rest =>
    List.forall_mem_cons.mpr ⟨children_induction node s, children_inductionAll node rest⟩
theorem children_inductionFields (node : ∀ s : Shape, (∀ c ∈ s.children, P c) → P s) :
    ∀ fs : List (Member × Shape), ∀ c ∈ fs.map Prod.snd, P c
  | [] => List.forall_mem_nil _
  | (_, s) :: rest =>
    List.forall_mem_cons.mpr ⟨children_induction node s, children_inductionFields node rest⟩
end

end induction

/-- One more node stands above all the others. -/
def putBelow (s : Shape) (q : List Shape × Shape) : List Shape × Shape := (q.1 ++ [s], q.2)

mutual
/-- The nodes of a shape, each with the nodes above it, the nearest first. -/
def placed : Shape → List (List Shape × Shape)
  | s@(.construct _ args) => ([], s) :: (placedArgs args).map (putBelow s)
  | s@(.memberInit _ args assignments) =>
    ([], s) :: (placedArgs args ++ placedFields assignments).map (putBelow s)
  | s@(.attach e _ value) => ([], s) :: (placed e ++ placed value).map (putBelow s)
  | s@(.binary left _ right _) => ([], s) :: (placed left ++ placed right).map (putBelow s)
  | s@(.call _ args _) => ([], s) :: (placedAll args).map (putBelow s)
  | s@(.entity ..) | s@(.parameter _) | s@(.group _) | s@(.constant ..) | s@(.column ..)
  | s@(.reference _) | s@(.lookup _) => [([], s)]
def placedArgs : Args Shape → List (List Shape × Shape)
  | .positional values => placedAll values
  | .named fields => placedFields fields
def placedAll : List Shape → List (List Shape × Shape)
  | [] => []
  | s :: rest => placed s ++ placedAll rest
def placedFields : List (Member × Shape) → List (List Shape × Shape)
  | [] => []
  | (_, s) :: rest => placed s ++ placedFields rest
end

theorem placedAll_eq (ss : List Shape) : placedAll ss = ss.flatMap placed := by
  induction ss with
  | nil => rfl
  | cons s ss ih => rw [placedAll, ih, List.flatMap_cons]

theorem placedFields_eq (fs : List (Member × Shape)) :
    placedFields fs = (fs.map Prod.snd).flatMap placed := by
  induction fs with
  | nil => rfl
  | cons f fs ih => rw [placedFields, ih, List.map_cons, List.flatMap_cons]

theorem placedArgs_eq (args : Args Shape) : placedArgs args = args.values.flatMap placed := by
  cases args with
  | positional values => exact placedAll_eq values
  | named fields => exact placedFields_eq fields

theorem placed_eq (s : Shape) :
    s.placed = ([], s) :: (s.children.flatMap placed).map (putBelow s) := by
  cases s with
  | construct type args => rw [placed, placedArgs_eq, children]
  | memberInit type args assignments =>
    rw [placed, placedArgs_eq, placedFields_eq, children, List.flatMap_append]
  | call function args type => rw [placed, placedAll_eq, children]
  | attach | binary => simp [placed, children]
  | entity | parameter | group | constant | column | reference | lookup => rfl

theorem map_snd_placed (s : Shape) : s.placed.map Prod.snd = s.nodes := by
  induction s using children_induction with
  | node s ih =>
    rw [placed_eq, nodes_eq, List.map_cons, List.map_map]
    have hc : (s.children.flatMap placed).map Prod.snd = s.children.flatMap nodes := by
      rw [List.map_flatMap]
      exact List.flatMap_congr ih
    exact congrArg (s :: ·) hc

variable (p : Shape → Bool)

/-- The nodes that stand below none with a property. -/
def exposed (s : Shape) : List Shape :=
  (s.placed.filter fun q => q.1.all fun n => !p n).map Prod.snd

/-- The largest parts of a shape with a property: the nodes that have it and stand below none that
has it. -/
def outermost (s : Shape) : List Shape := (s.exposed p).filter p

theorem exposed_eq (s : Shape) :
    s.exposed p = s :: if p s then [] else s.children.flatMap (exposed p) := by
  have hb : ∀ q : List Shape × Shape,
      ((putBelow s q).1.all fun n => !p n) = ((q.1.all fun n => !p n) && !p s) := by
    intro q
    simp [putBelow, List.all_append]
  rw [exposed, placed_eq, List.filter_cons_of_pos rfl, List.map_cons, List.filter_map]
  congr 1
  cases hp : p s with
  | true => simp [Function.comp_def, hb, hp]
  | false =>
    simp only [Function.comp_def, hb, hp, Bool.not_false, Bool.and_true, List.map_map]
    rw [List.filter_flatMap, List.map_flatMap]
    rfl

/-- No occurrence of a node is exposed twice. -/
theorem exposed_sublist (s : Shape) : (s.exposed p).Sublist s.nodes := by
  rw [exposed, ← map_snd_placed s]
  exact List.filter_sublist.map Prod.snd

theorem nodes_of_exposed {s n : Shape} (h : n ∈ s.exposed p) : n ∈ s.nodes :=
  (exposed_sublist p s).subset h

end QueryShaping.Shape
