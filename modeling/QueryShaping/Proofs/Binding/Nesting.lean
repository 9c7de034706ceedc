import QueryShaping.Proofs.Binding.Refusal
import QueryShaping.Proofs.Binding.Visits
import QueryShaping.Proofs.Shape.Relabelling

/-!
Shapes inside constructions of one member each. Main statement: to bind such a shape is to bind what
is inside, with the path of the members put before every address (`bindShape_under`).
-/

namespace QueryShaping

/-- A construction of one member, without the value of the member. -/
inductive Layer where
  | construct (type : String) (member : Member)
  | memberInit (type : String) (member : Member)
deriving DecidableEq, Repr

namespace Layer

def member : Layer → Member
  | construct _ m | memberInit _ m => m

def wrap : Layer → Shape → Shape
  | construct type m, s => .construct type (.named [(m, s)])
  | memberInit type m, s => .memberInit type (.positional []) [(m, s)]

/-- The members that lead through layers, from the outermost. -/
def path (layers : List Layer) : Address := layers.map member

theorem append_path_cons (l : Layer) (layers : List Layer) (p : Address) :
    p ++ path (l :: layers) = p.child l.member ++ path layers := by
  rw [path, List.map_cons, Address.child, List.append_assoc, List.singleton_append, path]

end Layer

/-- The shape inside layers, the first of which is the outermost. -/
def Shape.under (layers : List Layer) (s : Shape) : Shape := layers.foldr Layer.wrap s

theorem Shape.under_cons (l : Layer) (layers : List Layer) (s : Shape) :
    s.under (l :: layers) = l.wrap (s.under layers) := rfl

/-- What goes down a layer by its member goes down all of them by their path. -/
theorem Shape.under_eq {α : Type} (F : Address → Shape → α)
    (h : ∀ (l : Layer) (p : Address) (s : Shape), F p (l.wrap s) = F (p.child l.member) s)
    (layers : List Layer) (s : Shape) (p : Address) :
    F p (s.under layers) = F (p ++ Layer.path layers) s := by
  induction layers generalizing p with
  | nil => rw [Layer.path, List.map_nil, List.append_nil, under, List.foldr_nil]
  | cons l layers ih => rw [Shape.under_cons, h, ih, Layer.append_path_cons]

/-- The same place as seen from further out. -/
def Target.below (p : Address) : Target → Target
  | .address a => .address (p ++ a)
  | .slot i => .slot i

def Relabelling.below (p : Address) : Relabelling where
  target := Target.below p

/-- Only the refusal to evaluate on the client says where it arose. -/
def Error.below (p : Address) : Error → Error
  | .clientEvaluationForbidden kind a => .clientEvaluationForbidden kind (p ++ a)
  | e => e

/-- The fragments of a mapping, in the same order, under longer addresses. -/
def Mapping.below (p : Address) (m : Mapping) : Mapping :=
  m.map (List.append_right_injective p) id

/-- A bound shape inside layers. On the server it reads addresses, which get longer; on the client
it reads slots, which stay. -/
def Bound.under (layers : List Layer) : Bound → Bound
  | ⟨s, .server⟩ => ⟨(s.relabel (.below (Layer.path layers))).under layers, .server⟩
  | ⟨s, .client⟩ => ⟨s.under layers, .client⟩

namespace Binding

namespace Server

variable (p : Address)

mutual
theorem visited_append : ∀ (s : Shape) (path : Address),
    visited (p ++ path) s = (visited path s).map fun e => (p ++ e.1, e.2)
  | .construct _ args, path => by
    rw [visited, visited, visitedArgs_append args path, List.map_cons]
  | .memberInit _ args assignments, path => by
    rw [visited, visited, visitedArgs_append args path, visitedFields_append assignments path,
      List.map_cons, List.map_append]
  | .entity .., _ | .attach .., _ | .parameter _, _ | .group _, _ | .constant .., _ | .column .., _
  | .binary .., _ | .call .., _ | .reference _, _ | .lookup _, _ => rfl
theorem visitedArgs_append : ∀ (args : Args Shape) (path : Address),
    visitedArgs (p ++ path) args = (visitedArgs path args).map fun e => (p ++ e.1, e.2)
  | .positional _, _ => rfl
  | .named fs, path => visitedFields_append fs path
theorem visitedFields_append : ∀ (fs : List (Member × Shape)) (path : Address),
    visitedFields (p ++ path) fs = (visitedFields path fs).map fun e => (p ++ e.1, e.2)
  | [], _ => rfl
  | (m, s) :: rest, path => by
    have hc : (p ++ path).child m = p ++ path.child m := List.append_assoc ..
    rw [visitedFields, visitedFields, hc, visited_append s (path.child m),
      visitedFields_append rest path, List.map_append]
end

variable (store : Store) (behind? : Reference → Option Fragment) (s : Shape) (path : Address)

theorem obstacles_append : obstacles store (p ++ path) s =
    (obstacles store path s).map fun o => (o.1, p ++ o.2) := by
  rw [obstacles_eq, obstacles_eq, visited_append, List.filterMap_map, List.map_filterMap]
  congr 1
  funext e
  simp [asObstacle?, Function.comp_def]

theorem recordings_append : recordings store behind? (p ++ path) s =
    (recordings store behind? path s).map (Prod.map (p ++ ·) id) := by
  rw [recordings_eq, recordings_eq, visited_append, List.filterMap_map, List.map_filterMap]
  congr 1
  funext e
  simp [asRecording?, Function.comp_def]

variable {store} {owner : Select}

mutual
/-- What is bound on the server reads addresses alone. -/
theorem addressed_append : ∀ (s : Shape) (path : Address),
    (∀ n ∈ s.nodes, defect? owner n = none) → obstacles store path s = [] →
    addressed owner.id (p ++ path) s = (addressed owner.id path s).relabel (.below p)
  | .construct _ args, path, hi, ho => by
    rw [addressed, addressed, Shape.relabel,
      addressedArgs_append args path (List.forall_mem_cons.mp hi).2 ho]
  | .memberInit _ args assignments, path, hi, ho => by
    obtain ⟨hia, hif⟩ := List.forall_mem_append.mp (List.forall_mem_cons.mp hi).2
    obtain ⟨hoa, hof⟩ := List.append_eq_nil_iff.mp ho
    rw [addressed, addressed, Shape.relabel, addressedArgs_append args path hia hoa,
      addressedFields_append assignments path hif hof]
  | .attach .., _, _, ho => by simp [obstacles] at ho
  | .parameter p, path, _, _ => by
    by_cases hp : p.type.isEnumerable
    · simp only [addressed, hp, if_true]
      rfl
    · simp only [addressed, hp]
      rfl
  | .entity .., _, _, _ | .constant .., _, _, _ | .column .., _, _, _ | .binary .., _, _, _
  | .call .., _, _, _ | .group _, _, _, _ => rfl
  | .reference r, _, hi, _ => absurd hi (not_intact_reference r)
  | .lookup p, _, hi, _ => absurd hi (not_intact_lookup p)
theorem addressedArgs_append : ∀ (args : Args Shape) (path : Address),
    (∀ n ∈ Shape.nodesArgs args, defect? owner n = none) → obstaclesArgs store path args = [] →
    addressedArgs owner.id (p ++ path) args =
      Shape.relabelArgs (.below p) (addressedArgs owner.id path args)
  | .positional [], _, _, _ => rfl
  | .positional (_ :: _), _, _, ho => by simp [obstaclesArgs] at ho
  | .named fs, path, hi, ho => congrArg Args.named (addressedFields_append fs path hi ho)
theorem addressedFields_append : ∀ (fs : List (Member × Shape)) (path : Address),
    (∀ n ∈ Shape.nodesFields fs, defect? owner n = none) → obstaclesFields store path fs = [] →
    addressedFields owner.id (p ++ path) fs =
      Shape.relabelFields (.below p) (addressedFields owner.id path fs)
  | [], _, _, _ => rfl
  | (m, s) :: rest, path, hi, ho => by
    obtain ⟨his, hir⟩ := List.forall_mem_append.mp hi
    obtain ⟨hos, hor⟩ := List.append_eq_nil_iff.mp ho
    have hc : (p ++ path).child m = p ++ path.child m := List.append_assoc ..
    rw [addressedFields, addressedFields, Shape.relabelFields, hc,
      addressed_append s (path.child m) his hos, addressedFields_append rest path hir hor]
end

end Server

section wrap

variable (store : Store) (behind? : Reference → Option Fragment)
  (refer : Fragment → DataType → Reference) (l : Layer) (s : Shape) (path : Address)

theorem nodes_wrap : (l.wrap s).nodes = l.wrap s :: s.nodes := by
  cases l <;> exact congrArg (_ :: ·) (List.append_nil _)

theorem obstacles_wrap :
    Server.obstacles store path (l.wrap s) = Server.obstacles store (path.child l.member) s := by
  cases l <;> exact List.append_nil _

theorem recordings_wrap : Server.recordings store behind? path (l.wrap s) =
    Server.recordings store behind? (path.child l.member) s := by
  cases l <;> exact List.append_nil _

theorem addressed_wrap (query : QueryId) : Server.addressed query path (l.wrap s) =
    l.wrap (Server.addressed query (path.child l.member) s) := by
  cases l <;> rfl

theorem demands_wrap :
    Client.demands store behind? (l.wrap s) = Client.demands store behind? s := by
  cases l <;> exact List.append_nil _

theorem residue_wrap : Client.residue store behind? refer (l.wrap s) =
    l.wrap (Client.residue store behind? refer s) := by
  cases l <;> rfl

end wrap

section under

variable (store : Store) (owner : Select) (layers : List Layer) (s : Shape)

theorem firstDefect_under :
    (s.under layers).nodes.findSome? (defect? owner) = s.nodes.findSome? (defect? owner) := by
  refine Shape.under_eq (fun _ s => s.nodes.findSome? (defect? owner)) (fun l _ s => ?_) layers s []
  have hl : defect? owner (l.wrap s) = none := by cases l <;> rfl
  rw [nodes_wrap, List.findSome?_cons, hl]

theorem obstacles_under : Server.obstacles store .root (s.under layers) =
    (Server.obstacles store .root s).map fun o => (o.1, Layer.path layers ++ o.2) := by
  rw [Shape.under_eq (Server.obstacles store) fun l p s => obstacles_wrap store l s p,
    ← Server.obstacles_append]
  exact congrArg (Server.obstacles store · s) (List.append_nil _).symm

theorem serverMapping_under : serverMapping store owner (s.under layers) =
    (serverMapping store owner s).below (Layer.path layers) := by
  have hr : Server.recordings store owner.behind? .root (s.under layers) =
      (Server.recordings store owner.behind? .root s).map
        (Prod.map (Layer.path layers ++ ·) id) := by
    rw [Shape.under_eq (Server.recordings store owner.behind?)
      fun l p s => recordings_wrap store owner.behind? l s p, ← Server.recordings_append]
    exact congrArg (Server.recordings store owner.behind? · s) (List.append_nil _).symm
  rw [serverMapping, hr]
  exact OrderedMap.ofList_map (List.append_right_injective _) _ _

theorem addressed_under (query : QueryId) (p : Address) :
    Server.addressed query p (s.under layers) =
      (Server.addressed query (p ++ Layer.path layers) s).under layers := by
  induction layers generalizing p with
  | nil =>
    rw [Layer.path, List.map_nil, List.append_nil]
    rfl
  | cons l layers ih =>
    rw [Shape.under_cons, addressed_wrap, ih, Layer.append_path_cons, Shape.under_cons]

theorem projected_under : projected store owner (s.under layers) = projected store owner s :=
  congrArg owner.addAll (Shape.under_eq (fun _ => Client.demands store owner.behind?)
    (fun l _ s => demands_wrap store owner.behind? l s) layers s [])

theorem clientBound_under : clientBound store owner (s.under layers) =
    (clientBound store owner s).under layers := by
  rw [clientBound, clientBound, projected_under]
  induction layers with
  | nil => rfl
  | cons l layers ih => rw [Shape.under_cons, residue_wrap, ih, Shape.under_cons]

variable {store owner s}

theorem serverBound_under (hi : Intact owner s) (ho : Server.obstacles store .root s = []) :
    serverBound owner (s.under layers) =
      ((serverBound owner s).relabel (.below (Layer.path layers))).under layers := by
  rw [serverBound, addressed_under]
  have ha := Server.addressed_append (Layer.path layers) s .root hi ho
  rw [Address.root, List.append_nil] at ha
  exact congrArg (Shape.under layers) ha

end under

theorem Defect.below_eq {n : Shape} {e : Error} (h : Defect owner n e) (p : Address) :
    e.below p = e := by
  cases h <;> rfl

/-- To bind a shape inside layers is to bind the shape, with the path through the layers put before
every address that the bound shape, the mapping or the refusal has; nothing else is changed. -/
theorem bindShape_under (config : Config) (store : Store) (layers : List Layer) (s : Shape)
    (owner : Select) :
    let path := Layer.path layers
    let inner := bindShape config store s owner
    let outer := bindShape config store (s.under layers) owner
    outer.1.result = (inner.1.result.map (Bound.under layers)).mapError (Error.below path) ∧
    (∀ e, inner.1.result = .error e → outer.2 = inner.2) ∧
    ∀ b, inner.1.result = .ok b → outer.2 = inner.2.install (inner.2.mapping.below path) := by
  simp only [result_bindShape, select_bindShape, outcome, firstDefect_under, obstacles_under,
    List.head?_map]
  cases hd : s.nodes.findSome? (defect? owner) with
  | some e =>
    obtain ⟨n, -, hn⟩ := List.exists_of_findSome?_eq_some hd
    have hb : e.below (Layer.path layers) = e := (defect_of_defect? hn).below_eq _
    refine ⟨congrArg Except.error hb.symm, fun _ _ => rfl, ?_⟩
    rintro b ⟨⟩
  | none =>
    cases ho : (Server.obstacles store .root s).head? with
    | none =>
      have hi : Intact owner s := List.findSome?_eq_none_iff.mp hd
      have hs := serverBound_under layers hi (List.head?_eq_none_iff.mp ho)
      simp only [Option.map_none, hs, serverMapping_under]
      exact ⟨rfl, by simp, fun _ _ => rfl⟩
    | some o =>
      by_cases hp : config.policy = .forbid
      · simp only [Option.map_some, hp, if_true]
        exact ⟨rfl, fun _ _ => trivial, by simp⟩
      · simp only [Option.map_some, hp, if_false, clientBound_under, projected_under]
        exact ⟨rfl, by simp, fun _ _ => rfl⟩

/-- An item of a page, which holds a row with a view. -/
def pageItem : List Layer :=
  [.construct "Page" ⟨"Page", "Item"⟩, .memberInit "Row" ⟨"Row", "View"⟩]

theorem bindShape_under_pageItem :
    let inner := bindShape {} standardStore (customerView upperName) customers
    let outer := bindShape {} standardStore ((customerView upperName).under pageItem) customers
    (∃ b, inner.1.result = .ok b ∧ b.mode = .server ∧ outer.1.result = .ok (b.under pageItem)) ∧
      outer.2.mapping.keys =
        inner.2.mapping.keys.map ([⟨"Page", "Item"⟩, ⟨"Row", "View"⟩] ++ ·) ∧
      (bindShape { policy := .forbid } standardStore ((customerView localName).under pageItem)
          customers).1.result =
        .error (.clientEvaluationForbidden .call
          [⟨"Page", "Item"⟩, ⟨"Row", "View"⟩, ⟨"View", "Label"⟩]) := by
  obtain ⟨hr, -, hm⟩ :=
    bindShape_under {} standardStore pageItem (customerView upperName) customers
  obtain ⟨hf, -⟩ :=
    bindShape_under { policy := .forbid } standardStore pageItem (customerView localName) customers
  refine ⟨⟨_, rfl, rfl, hr⟩, ?_, hf⟩
  rw [hm _ rfl]
  rfl

end Binding

end QueryShaping
