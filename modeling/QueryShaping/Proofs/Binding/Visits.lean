import QueryShaping.Proofs.Binding.Outcome

/-!
The positions that a server pass goes through. Obstacles and recordings are read off these positions
(`obstacles_eq`, `recordings_eq`). Main statement: a shape is bound on the server exactly when no
position is an obstacle, and otherwise the first obstacle decides what becomes of the shape
(`bindShape_decision`).
-/

namespace QueryShaping

/-- There are arguments, and they come without members. -/
def Args.byPosition {α : Type} : Args α → Bool
  | .positional (_ :: _) => true
  | .positional [] | .named _ => false

/-- A store can be asked about the node. -/
def Shape.isScalar : Shape → Bool
  | .parameter p => !p.type.isEnumerable
  | .constant .. | .column .. | .binary .. | .call .. => true
  | .construct .. | .memberInit .. | .entity .. | .attach .. | .group _ | .reference _
  | .lookup _ => false

namespace Binding

namespace Server

mutual
/-- The nodes that the pass goes through, each with the path that leads to it, in the order of
evaluation. Only members lead on: what stands by position, below an attachment or below a scalar is
not visited. -/
def visited (path : Address) : Shape → List (Address × Shape)
  | s@(.construct _ args) => (path, s) :: visitedArgs path args
  | s@(.memberInit _ args assignments) =>
    (path, s) :: (visitedArgs path args ++ visitedFields path assignments)
  | s@(.entity ..) | s@(.attach ..) | s@(.parameter _) | s@(.group _) | s@(.constant ..)
  | s@(.column ..) | s@(.binary ..) | s@(.call ..) | s@(.reference _) | s@(.lookup _) => [(path, s)]
def visitedArgs (path : Address) : Args Shape → List (Address × Shape)
  | .positional _ => []
  | .named fields => visitedFields path fields
def visitedFields (path : Address) : List (Member × Shape) → List (Address × Shape)
  | [] => []
  | (m, s) :: rest => visited (path.child m) s ++ visitedFields path rest
end

/-- The kind under which a node is an obstacle, if it is one: attachments, constructions with
arguments by position, and scalars without a fragment. -/
def obstacle? (store : Store) : Shape → Option Kind
  | .construct _ args | .memberInit _ args _ => if args.byPosition then some .construct else none
  | .attach .. => some .attach
  | s => if s.isScalar ∧ store s = none then some s.kind else none

/-- The fragment that is recorded for a node, if one is. -/
def fragment? (store : Store) (behind? : Reference → Option Fragment) : Shape → Option Fragment
  | .entity _ buffer => behind? buffer
  | s => if s.isScalar then store s else none

/-- A visited node as an obstacle. -/
def asObstacle? (store : Store) (p : Address × Shape) : Option (Kind × Address) :=
  (obstacle? store p.2).map fun kind => (kind, p.1)

/-- A visited node as a recording. -/
def asRecording? (store : Store) (behind? : Reference → Option Fragment) (p : Address × Shape) :
    Option (Address × Fragment) :=
  (fragment? store behind? p.2).map fun f => (p.1, f)

variable {store : Store} {behind? : Reference → Option Fragment} {path : Address} {s : Shape}

theorem obstacle?_of_isScalar (h : s.isScalar) :
    obstacle? store s = if store s = none then some s.kind else none := by
  cases s <;> simp_all [obstacle?, Shape.isScalar]

theorem fragment?_of_isScalar (h : s.isScalar) : fragment? store behind? s = store s := by
  cases s <;> simp_all [fragment?, Shape.isScalar]

theorem unanswered_eq (h : s.isScalar) :
    unanswered store path s = [(path, s)].filterMap (asObstacle? store) := by
  cases hs : store s <;> simp [unanswered, asObstacle?, obstacle?_of_isScalar h, hs]

theorem recording_eq (h : s.isScalar) :
    (store s).toList.map (path, ·) = [(path, s)].filterMap (asRecording? store behind?) := by
  cases hs : store s <;> simp [asRecording?, fragment?_of_isScalar h, hs]

mutual
theorem obstacles_eq : ∀ (s : Shape) (path : Address),
    obstacles store path s = (visited path s).filterMap (asObstacle? store)
  | .construct _ args, path => by
    rw [obstacles, visited, obstaclesArgs_eq args path]
    cases h : args.byPosition <;> simp [asObstacle?, obstacle?, h]
  | .memberInit _ args assignments, path => by
    rw [obstacles, visited, obstaclesArgs_eq args path, obstaclesFields_eq assignments path]
    cases h : args.byPosition <;> simp [asObstacle?, obstacle?, h]
  | .attach .., _ | .group _, _ | .reference _, _ | .lookup _, _ | .entity .., _ => rfl
  | .parameter p, path => by
    by_cases hp : p.type.isEnumerable
    · simp [obstacles, visited, asObstacle?, obstacle?, Shape.isScalar, hp]
    · simp only [obstacles, hp, visited]
      exact unanswered_eq (by simp [Shape.isScalar, hp])
  | .constant .., _ | .column .., _ | .binary .., _ | .call .., _ => unanswered_eq rfl
theorem obstaclesArgs_eq : ∀ (args : Args Shape) (path : Address), obstaclesArgs store path args =
    (if args.byPosition then [(.construct, path)] else []) ++
      (visitedArgs path args).filterMap (asObstacle? store)
  | .positional [], _ | .positional (_ :: _), _ => rfl
  | .named fs, path => obstaclesFields_eq fs path
theorem obstaclesFields_eq : ∀ (fs : List (Member × Shape)) (path : Address),
    obstaclesFields store path fs = (visitedFields path fs).filterMap (asObstacle? store)
  | [], _ => rfl
  | (m, s) :: rest, path => by
    rw [obstaclesFields, visitedFields, List.filterMap_append, obstacles_eq s,
      obstaclesFields_eq rest]
end

mutual
theorem recordings_eq : ∀ (s : Shape) (path : Address),
    recordings store behind? path s = (visited path s).filterMap (asRecording? store behind?)
  | .construct _ args, path => recordingsArgs_eq args path
  | .memberInit _ args assignments, path => by
    rw [recordings, recordingsArgs_eq args path, recordingsFields_eq assignments path,
      ← List.filterMap_append]
    rfl
  | .attach .., _ | .group _, _ | .reference _, _ | .lookup _, _ => rfl
  | .entity _ buffer, path => by
    cases h : behind? buffer <;> simp [recordings, visited, asRecording?, fragment?, h]
  | .parameter p, path => by
    by_cases hp : p.type.isEnumerable
    · simp [recordings, visited, asRecording?, fragment?, Shape.isScalar, hp]
    · simp only [recordings, hp, visited]
      exact recording_eq (by simp [Shape.isScalar, hp])
  | .constant .., _ | .column .., _ | .binary .., _ | .call .., _ => recording_eq rfl
theorem recordingsArgs_eq : ∀ (args : Args Shape) (path : Address),
    recordingsArgs store behind? path args =
      (visitedArgs path args).filterMap (asRecording? store behind?)
  | .positional _, _ => rfl
  | .named fs, path => recordingsFields_eq fs path
theorem recordingsFields_eq : ∀ (fs : List (Member × Shape)) (path : Address),
    recordingsFields store behind? path fs =
      (visitedFields path fs).filterMap (asRecording? store behind?)
  | [], _ => rfl
  | (m, s) :: rest, path => by
    rw [recordingsFields, visitedFields, List.filterMap_append, recordings_eq s,
      recordingsFields_eq rest]
end

mutual
/-- No occurrence of a node is visited twice. -/
theorem visited_sublist : ∀ (s : Shape) (path : Address),
    ((visited path s).map Prod.snd).Sublist s.nodes
  | .construct _ args, path => by
    rw [visited, Shape.nodes, List.map_cons]
    exact (visitedArgs_sublist args path).cons_cons _
  | .memberInit _ args assignments, path => by
    rw [visited, Shape.nodes, List.map_cons, List.map_append]
    exact ((visitedArgs_sublist args path).append (visitedFields_sublist assignments path)).cons_cons _
  | .attach .., _ | .binary .., _ | .call .., _ => (List.nil_sublist _).cons_cons _
  | .entity .., _ | .parameter _, _ | .group _, _ | .constant .., _ | .column .., _
  | .reference _, _ | .lookup _, _ => .refl _
theorem visitedArgs_sublist : ∀ (args : Args Shape) (path : Address),
    ((visitedArgs path args).map Prod.snd).Sublist (Shape.nodesArgs args)
  | .positional _, _ => List.nil_sublist _
  | .named fs, path => visitedFields_sublist fs path
theorem visitedFields_sublist : ∀ (fs : List (Member × Shape)) (path : Address),
    ((visitedFields path fs).map Prod.snd).Sublist (Shape.nodesFields fs)
  | [], _ => .slnil
  | (m, s) :: rest, path => by
    rw [visitedFields, Shape.nodesFields, List.map_append]
    exact (visited_sublist s (path.child m)).append (visitedFields_sublist rest path)
end

theorem nodes_of_visited (s : Shape) (path : Address) {p : Address × Shape}
    (h : p ∈ visited path s) : p.2 ∈ s.nodes :=
  (visited_sublist s path).subset (List.mem_map_of_mem h)

theorem head?_obstacles {before after : List (Address × Shape)} {n : Shape} {kind : Kind}
    (hv : visited .root s = before ++ (path, n) :: after)
    (hb : ∀ p ∈ before, obstacle? store p.2 = none) (hn : obstacle? store n = some kind) :
    (obstacles store .root s).head? = some (kind, path) := by
  have hf : before.filterMap (asObstacle? store) = [] :=
    List.filterMap_eq_nil_iff.mpr fun p hp => by rw [asObstacle?, hb p hp, Option.map_none]
  have hs : asObstacle? store (path, n) = some (kind, path) := by
    rw [asObstacle?, hn, Option.map_some]
  rw [obstacles_eq, hv, List.filterMap_append, hf, List.nil_append, List.filterMap_cons_some hs,
    List.head?_cons]

theorem obstacles_eq_nil_iff :
    obstacles store path s = [] ↔ ∀ p ∈ visited path s, obstacle? store p.2 = none := by
  simp only [obstacles_eq, List.filterMap_eq_nil_iff, asObstacle?, Option.map_eq_none_iff]

section map

variable {store' : Store} {behind?' : Reference → Option Fragment} {g : Shape → Shape}

/-- A pass over a changed shape meets the same obstacles if it goes the same way and every node on it
is as much of an obstacle as before. -/
theorem obstacles_map (hv : visited path (g s) = (visited path s).map fun p => (p.1, g p.2))
    (h : ∀ p ∈ visited path s, obstacle? store' (g p.2) = obstacle? store p.2) :
    obstacles store' path (g s) = obstacles store path s := by
  rw [obstacles_eq, obstacles_eq, hv, List.filterMap_map]
  refine List.filterMap_congr fun p hp => ?_
  simp only [Function.comp_apply, asObstacle?, h p hp]

theorem recordings_map (hv : visited path (g s) = (visited path s).map fun p => (p.1, g p.2))
    (h : ∀ p ∈ visited path s, fragment? store' behind?' (g p.2) = fragment? store behind? p.2) :
    recordings store' behind?' path (g s) = recordings store behind? path s := by
  rw [recordings_eq, recordings_eq, hv, List.filterMap_map]
  refine List.filterMap_congr fun p hp => ?_
  simp only [Function.comp_apply, asRecording?, h p hp]

end map

end Server

/-- A shape without defects is bound on the server if no visited node is an obstacle. Otherwise the
first one decides: the shape is bound on the client, or it is refused where that is forbidden. -/
theorem bindShape_decision (config : Config) (store : Store) (s : Shape) (owner : Select)
    (h : check owner s = .ok ()) :
    let result := (bindShape config store s owner).1.result
    let visited := Server.visited .root s
    ((∃ b, result = .ok ⟨b, .server⟩) ↔ ∀ p ∈ visited, Server.obstacle? store p.2 = none) ∧
    ∀ before path n after kind, visited = before ++ (path, n) :: after →
      (∀ p ∈ before, Server.obstacle? store p.2 = none) → Server.obstacle? store n = some kind →
      (config.policy = .allow ∨ config.policy = .warn → ∃ b, result = .ok ⟨b, .client⟩) ∧
      (config.policy = .forbid → result = .error (.clientEvaluationForbidden kind path)) := by
  have hi : Intact owner s := (check_eq_ok_iff owner s).mp h
  refine ⟨⟨?_, fun ho => ?_⟩, fun before path n after kind hv hb hn => ⟨fun hp => ?_, fun hp => ?_⟩⟩
  · rintro ⟨b, hb⟩
    exact Server.obstacles_eq_nil_iff.mp (eq_of_bindShape_server hb).2.1
  · have hs : (bindShape config store s).Returns owner _ _ :=
      bindShape_server hi (Server.obstacles_eq_nil_iff.mpr ho)
    obtain ⟨steps, hs⟩ := hs
    exact ⟨serverBound owner s, by rw [hs]⟩
  · have hf : config.policy ≠ .forbid := by
      rintro hf
      simp [hf] at hp
    obtain ⟨steps, hs⟩ := bindShape_client hi (Server.head?_obstacles hv hb hn) hf
    exact ⟨clientBound store owner s, by rw [hs]⟩
  · exact (bindShape_forbidden hi (Server.head?_obstacles hv hb hn) hp).1

theorem bindShape_decision_customerView :
    (∃ b, (bindShape {} standardStore (customerView upperName) customers).1.result =
        .ok ⟨b, .server⟩) ∧
      (∃ b, (bindShape { policy := .warn } standardStore (customerView localName)
        customers).1.result = .ok ⟨b, .client⟩) ∧
      (bindShape { policy := .forbid } standardStore (customerView localName)
          customers).1.result =
        .error (.clientEvaluationForbidden .call [⟨"View", "Label"⟩]) := by
  have hc : ∀ label ∈ [upperName, localName], check customers (customerView label) = .ok () := by
    decide
  have hv : Server.visited .root (customerView localName) =
      (Server.visited .root (customerView localName)).take 4 ++
        ([⟨"View", "Label"⟩], localName) :: [] := rfl
  have hb : ∀ p ∈ (Server.visited .root (customerView localName)).take 4,
      Server.obstacle? standardStore p.2 = none := by decide
  have hn : Server.obstacle? standardStore localName = some .call := by decide
  have hs := bindShape_decision {} standardStore (customerView upperName) customers
    (hc upperName (by simp))
  have hw := bindShape_decision { policy := .warn } standardStore (customerView localName) customers
    (hc localName (by simp))
  have hf := bindShape_decision { policy := .forbid } standardStore (customerView localName)
    customers (hc localName (by simp))
  exact ⟨hs.1.mpr (by decide), (hw.2 _ _ _ _ _ hv hb hn).1 (.inr rfl),
    (hf.2 _ _ _ _ _ hv hb hn).2 rfl⟩

end Binding

end QueryShaping
