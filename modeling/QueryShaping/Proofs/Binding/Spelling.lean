import QueryShaping.Proofs.Binding.BoundNodes
import QueryShaping.Proofs.Store.Evaluation

/-!
The case of functions in a bind. Of a store that takes no account of it, both passes are told the
same whichever way a function is written. Main statement: a bind ends alike for shapes that differ in
nothing else, on the same select, and leaves in the bound shape what is written (`bindShape_upper`).
-/

namespace QueryShaping

namespace Shape

theorem kind_upper (s : Shape) : s.upper.kind = s.kind := by
  cases s <;> rfl

theorem type_upper : ∀ s : Shape, s.upper.type = s.type
  | .attach e _ _ => type_upper e
  | .construct .. | .memberInit .. | .entity .. | .parameter _ | .group _ | .constant ..
  | .column .. | .binary .. | .call .. | .reference _ | .lookup _ => rfl

theorem isScalar_upper (s : Shape) : s.upper.isScalar = s.isScalar := by
  cases s <;> rfl

theorem byPosition_upper (args : Args Shape) : (upperArgs args).byPosition = args.byPosition := by
  obtain (_ | _) | _ := args <;> rfl

theorem upperAll_eq (ss : List Shape) : upperAll ss = ss.map upper := by
  induction ss with
  | nil => rfl
  | cons s ss ih => rw [upperAll, ih, List.map_cons]

theorem map_snd_upperFields (fs : List (Member × Shape)) :
    (upperFields fs).map Prod.snd = (fs.map Prod.snd).map upper := by
  induction fs with
  | nil => rfl
  | cons f fs ih => rw [upperFields, List.map_cons, ih, List.map_cons, List.map_cons]

theorem values_upperArgs (args : Args Shape) : (upperArgs args).values = args.values.map upper := by
  cases args with
  | positional values => exact upperAll_eq values
  | named fields => exact map_snd_upperFields fields

theorem children_upper (s : Shape) : s.upper.children = s.children.map upper := by
  cases s with
  | construct type args => exact values_upperArgs args
  | memberInit type args assignments =>
    rw [upper, children, values_upperArgs, map_snd_upperFields, ← List.map_append]
    rfl
  | call function args type => exact upperAll_eq args
  | attach | binary | entity | parameter | group | constant | column | reference | lookup => rfl

theorem nodes_upper (s : Shape) : s.upper.nodes = s.nodes.map upper := by
  induction s using children_induction with
  | node s ih =>
    rw [nodes_eq, nodes_eq s, children_upper, List.map_cons, List.flatMap_map, List.map_flatMap]
    exact congrArg (s.upper :: ·) (List.flatMap_congr ih)

theorem exposed_upper {p : Shape → Bool} (hp : ∀ n, p n.upper = p n) (s : Shape) :
    s.upper.exposed p = (s.exposed p).map upper := by
  induction s using children_induction with
  | node s ih =>
    rw [exposed_eq, exposed_eq p s, hp, children_upper, List.map_cons]
    split
    · rfl
    · rw [List.flatMap_map, List.map_flatMap]
      exact congrArg (s.upper :: ·) (List.flatMap_congr ih)

end Shape

/-- The store takes no account of the case of functions. -/
def CaseBlind (store : Store) : Prop := ∀ n : Shape, store n.upper = store n

theorem StoreFunctions.caseBlind (functions : StoreFunctions) : CaseBlind functions.fragment? :=
  fragment?_upper

def Bound.upper (b : Bound) : Bound := { b with shape := b.shape.upper }

namespace Binding

variable {store : Store} {behind? : Reference → Option Fragment} {owner : Select}

theorem firstDefect_upper (owner : Select) (s : Shape) :
    s.upper.nodes.findSome? (defect? owner) = s.nodes.findSome? (defect? owner) := by
  rw [Shape.nodes_upper, List.findSome?_map]
  exact findSome?_congr fun n _ => by cases n <;> rfl

namespace Server

theorem obstacle?_upper (h : CaseBlind store) (n : Shape) :
    obstacle? store n.upper = obstacle? store n := by
  by_cases hn : n.isScalar
  · rw [obstacle?_of_isScalar hn, obstacle?_of_isScalar ((Shape.isScalar_upper n).trans hn), h,
      Shape.kind_upper]
  · cases n with
    | construct type args | memberInit type args assignments =>
      simp only [Shape.upper, obstacle?, Shape.byPosition_upper]
    | binary | call => exact absurd rfl hn
    | _ => rfl

theorem fragment?_upper (h : CaseBlind store) (n : Shape) :
    fragment? store behind? n.upper = fragment? store behind? n := by
  by_cases hn : n.isScalar
  · rw [fragment?_of_isScalar hn, fragment?_of_isScalar ((Shape.isScalar_upper n).trans hn), h]
  · cases n with
    | binary | call => exact absurd rfl hn
    | _ => rfl

/-- A visited node with the names of its functions in upper case. -/
def upperAt (p : Address × Shape) : Address × Shape := (p.1, p.2.upper)

mutual
theorem visited_upper : ∀ (s : Shape) (path : Address),
    visited path s.upper = (visited path s).map upperAt
  | .construct _ args, path => by
    rw [Shape.upper, visited, visited, visitedArgs_upper args path, List.map_cons, upperAt,
      Shape.upper]
  | .memberInit _ args assignments, path => by
    rw [Shape.upper, visited, visited, visitedArgs_upper args path,
      visitedFields_upper assignments path, List.map_cons, List.map_append, upperAt, Shape.upper]
  | .entity .., _ | .attach .., _ | .parameter _, _ | .group _, _ | .constant .., _ | .column .., _
  | .binary .., _ | .call .., _ | .reference _, _ | .lookup _, _ => rfl
theorem visitedArgs_upper : ∀ (args : Args Shape) (path : Address),
    visitedArgs path (Shape.upperArgs args) = (visitedArgs path args).map upperAt
  | .positional _, _ => rfl
  | .named fs, path => visitedFields_upper fs path
theorem visitedFields_upper : ∀ (fs : List (Member × Shape)) (path : Address),
    visitedFields path (Shape.upperFields fs) = (visitedFields path fs).map upperAt
  | [], _ => rfl
  | (m, s) :: rest, path => by
    rw [Shape.upperFields, visitedFields, visitedFields, visited_upper s (path.child m),
      visitedFields_upper rest path, List.map_append]
end

theorem obstacles_upper (h : CaseBlind store) (path : Address) (s : Shape) :
    obstacles store path s.upper = obstacles store path s :=
  obstacles_map (visited_upper s path) fun p _ => obstacle?_upper h p.2

theorem recordings_upper (h : CaseBlind store) (path : Address) (s : Shape) :
    recordings store behind? path s.upper = recordings store behind? path s :=
  recordings_map (visited_upper s path) fun p _ => fragment?_upper h p.2

mutual
theorem addressed_upper (query : QueryId) : ∀ (s : Shape) (path : Address),
    addressed query path s.upper = (addressed query path s).upper
  | .construct _ args, path => by
    rw [Shape.upper, addressed, addressed, Shape.upper, addressedArgs_upper query args path]
  | .memberInit _ args assignments, path => by
    rw [Shape.upper, addressed, addressed, Shape.upper, addressedArgs_upper query args path,
      addressedFields_upper query assignments path]
  | .parameter p, path => by
    by_cases hp : p.type.isEnumerable <;> simp [Shape.upper, addressed, hp]
  | .entity .., _ | .attach .., _ | .group _, _ | .constant .., _ | .column .., _ | .binary .., _
  | .call .., _ | .reference _, _ | .lookup _, _ => rfl
theorem addressedArgs_upper (query : QueryId) : ∀ (args : Args Shape) (path : Address),
    addressedArgs query path (Shape.upperArgs args) = Shape.upperArgs (addressedArgs query path args)
  | .positional _, _ => rfl
  | .named fs, path => congrArg Args.named (addressedFields_upper query fs path)
theorem addressedFields_upper (query : QueryId) : ∀ (fs : List (Member × Shape)) (path : Address),
    addressedFields query path (Shape.upperFields fs) =
      Shape.upperFields (addressedFields query path fs)
  | [], _ => rfl
  | (m, s) :: rest, path => by
    rw [Shape.upperFields, addressedFields, addressedFields, Shape.upperFields,
      addressed_upper query s (path.child m), addressedFields_upper query rest path]
end

end Server

namespace Client

theorem demand?_upper (h : CaseBlind store) (n : Shape) :
    demand? store behind? n.upper = demand? store behind? n := by
  by_cases hn : n.isScalar
  · rw [demand?_of_isScalar hn, demand?_of_isScalar ((Shape.isScalar_upper n).trans hn), h,
      Shape.type_upper]
  · cases n with
    | binary | call => exact absurd rfl hn
    | _ => rfl

theorem demands_upper (h : CaseBlind store) (s : Shape) :
    demands store behind? s.upper = demands store behind? s := by
  have ha : ∀ n, accepts store n.upper = accepts store n := fun n => by
    rw [accepts, accepts, Shape.isScalar_upper, h]
  rw [demands_eq, demands_eq, Shape.exposed_upper ha, List.filterMap_map]
  exact List.filterMap_congr fun n _ => demand?_upper h n

section residue

variable {refer : Fragment → DataType → Reference}

theorem replace_upper (h : CaseBlind store) (n r : Shape) :
    replace store refer n.upper r.upper = (replace store refer n r).upper := by
  rw [replace, replace, h, Shape.type_upper]
  cases store n <;> rfl

mutual
theorem residue_upper (h : CaseBlind store) : ∀ s : Shape,
    residue store behind? refer s.upper = (residue store behind? refer s).upper
  | .construct _ args => by
    rw [Shape.upper, residue, residue, Shape.upper, residueArgs_upper h args]
  | .memberInit _ args assignments => by
    rw [Shape.upper, residue, residue, Shape.upper, residueArgs_upper h args,
      residueFields_upper h assignments]
  | .entity _ buffer => by
    rw [Shape.upper, residue]
    cases behind? buffer <;> rfl
  | .attach e _ value => by
    rw [Shape.upper, residue, residue, Shape.upper, residue_upper h e, residue_upper h value]
  | .parameter p => by
    rw [Shape.upper, residue]
    split
    · rfl
    · exact replace_upper h (.parameter p) (.lookup p)
  | .constant value type => replace_upper h (.constant value type) (.constant value type)
  | .column table name type => replace_upper h (.column table name type) (.column table name type)
  | .binary left op right type => by
    rw [Shape.upper, residue, residue_upper h left, residue_upper h right]
    exact replace_upper h (.binary left op right type)
      (.binary (residue store behind? refer left) op (residue store behind? refer right) type)
  | .call function args type => by
    rw [Shape.upper, residue, residueAll_upper h args]
    exact replace_upper h (.call function args type)
      (.call function (residueAll store behind? refer args) type)
  | .group _ | .reference _ | .lookup _ => rfl
theorem residueArgs_upper (h : CaseBlind store) : ∀ args : Args Shape,
    residueArgs store behind? refer (Shape.upperArgs args) =
      Shape.upperArgs (residueArgs store behind? refer args)
  | .positional values => congrArg Args.positional (residueAll_upper h values)
  | .named fs => congrArg Args.named (residueFields_upper h fs)
theorem residueAll_upper (h : CaseBlind store) : ∀ ss : List Shape,
    residueAll store behind? refer (Shape.upperAll ss) =
      Shape.upperAll (residueAll store behind? refer ss)
  | [] => rfl
  | s :: rest => by
    rw [Shape.upperAll, residueAll, residueAll, Shape.upperAll, residue_upper h s,
      residueAll_upper h rest]
theorem residueFields_upper (h : CaseBlind store) : ∀ fs : List (Member × Shape),
    residueFields store behind? refer (Shape.upperFields fs) =
      Shape.upperFields (residueFields store behind? refer fs)
  | [] => rfl
  | (_, s) :: rest => by
    rw [Shape.upperFields, residueFields, residueFields, Shape.upperFields, residue_upper h s,
      residueFields_upper h rest]
end

end residue

end Client

section bind

theorem projected_upper (h : CaseBlind store) (owner : Select) (s : Shape) :
    projected store owner s.upper = projected store owner s := by
  rw [projected, Client.demands_upper h, projected]

theorem clientBound_upper (h : CaseBlind store) (owner : Select) (s : Shape) :
    clientBound store owner s.upper = (clientBound store owner s).upper := by
  rw [clientBound, projected_upper h]
  exact Client.residue_upper h s

theorem serverMapping_upper (h : CaseBlind store) (owner : Select) (s : Shape) :
    serverMapping store owner s.upper = serverMapping store owner s :=
  congrArg OrderedMap.ofList (Server.recordings_upper h .root s)

theorem outcome_upper (config : Config) (h : CaseBlind store) (s : Shape) (owner : Select) :
    outcome config store s.upper owner =
      ((outcome config store s owner).1.map Bound.upper, (outcome config store s owner).2) := by
  have hs : serverBound owner s.upper = (serverBound owner s).upper :=
    Server.addressed_upper owner.id s .root
  simp only [outcome, firstDefect_upper, Server.obstacles_upper h, hs, serverMapping_upper h,
    clientBound_upper h, projected_upper h]
  cases s.nodes.findSome? (defect? owner) with
  | some e => rfl
  | none =>
    cases (Server.obstacles store .root s).head? with
    | none => rfl
    | some o => by_cases hp : config.policy = .forbid <;> simp only [hp] <;> rfl

theorem alike_of_map_upper {x y : Except Error Bound} (h : x.map Bound.upper = y.map Bound.upper) :
    (∀ e, x = .error e ↔ y = .error e) ∧
    ∀ b mode, y = .ok ⟨b, mode⟩ → ∃ b', x = .ok ⟨b', mode⟩ ∧ b'.upper = b.upper := by
  cases x with
  | error e =>
    cases y with
    | error e' =>
      obtain rfl : e = e' := Except.error.inj h
      exact ⟨fun _ => .rfl, by simp⟩
    | ok b => cases h
  | ok b' =>
    obtain ⟨t, mode⟩ := b'
    cases y with
    | error e => cases h
    | ok b =>
      obtain ⟨hs, rfl⟩ : t.upper = b.shape.upper ∧ mode = b.mode := Bound.mk.inj (Except.ok.inj h)
      refine ⟨by simp, ?_⟩
      rintro b mode ⟨⟩
      exact ⟨t, rfl, hs⟩

/-- Functions in upper case are bound as they are written, but that they stay in upper case where
they are left to the client. -/
theorem bindShape_upper (config : Config) (h : CaseBlind store) (s : Shape) (owner : Select) :
    (bindShape config store s.upper owner).1.result =
        (bindShape config store s owner).1.result.map Bound.upper ∧
      (bindShape config store s.upper owner).2 = (bindShape config store s owner).2 := by
  rw [result_bindShape, result_bindShape, select_bindShape, select_bindShape, outcome_upper config h]
  exact ⟨rfl, rfl⟩

/-- Shapes that differ in nothing but the case of functions are bound alike, up to that case. -/
theorem bindShape_eq_of_upper_eq (config : Config) (h : CaseBlind store) {s s' : Shape}
    (hu : s.upper = s'.upper) (owner : Select) :
    (bindShape config store s' owner).1.result.map Bound.upper =
        (bindShape config store s owner).1.result.map Bound.upper ∧
      (bindShape config store s' owner).2 = (bindShape config store s owner).2 := by
  obtain ⟨hr, ha⟩ := bindShape_upper config h s owner
  obtain ⟨hr', ha'⟩ := bindShape_upper config h s' owner
  rw [← hr, ← hr', ← ha, ← ha', hu]
  exact ⟨rfl, rfl⟩

end bind

end Binding

end QueryShaping
