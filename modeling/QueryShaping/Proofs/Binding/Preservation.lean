import QueryShaping.Proofs.Binding.Paths
import QueryShaping.Proofs.Binding.Projection
import QueryShaping.Proofs.Select.Flatten
import QueryShaping.Proofs.Shape.Meaning

/-!
Binding keeps the meaning of a shape. Main statement: in every meaning for which the store evaluates
its fragments soundly, a bound shape has in a row the value that the shape had before
(`eval_bindShape`).
-/

namespace QueryShaping

variable {V : Type}

namespace Select

/-- The value behind a buffer, before anything is bound. -/
def valueBehind? (s : Select) (ev : Fragment → V) (buffer : Reference) : Option V :=
  (s.behind? buffer).map ev

/-- The row that a store returns: the value of each slot. -/
def row (s : Select) (ev : Fragment → V) : List V := s.projection.map fun slot => ev slot.fragment

/-- What a reference finds in a row. -/
def fetch? (s : Select) (row : List V) (r : Reference) : Option V := (s.slot? r).bind (row[·]?)

theorem fetch?_row (s : Select) (ev : Fragment → V) (r : Reference) :
    s.fetch? (s.row ev) r = (s.read? r).map ev := by
  rw [fetch?, read?, Option.map_bind]
  congr 1
  funext i
  simp [row, fragments, Function.comp_def]

end Select

/-- Where the store has a fragment for a node, the fragment has the value of the node. -/
def Store.Sound (store : Store) (M : Meaning V) (ev : Fragment → V) (read : Reference → Option V)
    (nodes : List Shape) : Prop :=
  ∀ n ∈ nodes, ∀ f ∈ store n, ∀ v ∈ n.eval M read, ev f = v

instance [DecidableEq V] (store : Store) (M : Meaning V) (ev : Fragment → V)
    (read : Reference → Option V) (nodes : List Shape) : Decidable (store.Sound M ev read nodes) :=
  inferInstanceAs (Decidable (∀ n ∈ nodes, ∀ f ∈ store n, ∀ v ∈ n.eval M read, ev f = v))

namespace Binding

variable {M : Meaning V} {ev : Fragment → V} {store : Store} {owner : Select}

section value

variable (M ev)

mutual
theorem exists_eval : ∀ s : Shape, (∀ n ∈ s.nodes, defect? owner n = none) →
    ∃ v, s.eval M (owner.valueBehind? ev) = some v
  | .construct _ args, hi => by
    obtain ⟨vs, hvs⟩ := exists_evalArgs args (List.forall_mem_cons.mp hi).2
    exact ⟨_, by rw [Shape.eval, hvs]; rfl⟩
  | .memberInit _ args assignments, hi => by
    obtain ⟨hia, hif⟩ := List.forall_mem_append.mp (List.forall_mem_cons.mp hi).2
    obtain ⟨vs, hvs⟩ := exists_evalArgs args hia
    obtain ⟨ws, hws⟩ := exists_evalFields assignments hif
    exact ⟨_, by rw [Shape.eval, hvs, hws]; rfl⟩
  | .entity type buffer, hi => by
    obtain ⟨a, f, -, -, hb⟩ := exists_behind?_of_intact hi
    exact ⟨_, by rw [Shape.eval, Select.valueBehind?, hb]; rfl⟩
  | .attach e _ value, hi => by
    obtain ⟨hie, hiv⟩ := List.forall_mem_append.mp (List.forall_mem_cons.mp hi).2
    obtain ⟨v, hv⟩ := exists_eval e hie
    obtain ⟨w, hw⟩ := exists_eval value hiv
    exact ⟨_, by rw [Shape.eval, hv, hw]; rfl⟩
  | .binary left _ right _, hi => by
    obtain ⟨hil, hir⟩ := List.forall_mem_append.mp (List.forall_mem_cons.mp hi).2
    obtain ⟨v, hv⟩ := exists_eval left hil
    obtain ⟨w, hw⟩ := exists_eval right hir
    exact ⟨_, by rw [Shape.eval, hv, hw]; rfl⟩
  | .call _ args _, hi => by
    obtain ⟨vs, hvs⟩ := exists_evalAll args (List.forall_mem_cons.mp hi).2
    exact ⟨_, by rw [Shape.eval, hvs]; rfl⟩
  | .parameter _, _ | .group _, _ | .constant .., _ | .column .., _ | .lookup _, _ => ⟨_, rfl⟩
  | .reference r, hi => absurd hi (not_intact_reference r)
theorem exists_evalArgs : ∀ args : Args Shape,
    (∀ n ∈ Shape.nodesArgs args, defect? owner n = none) →
    ∃ vs, Shape.evalArgs M (owner.valueBehind? ev) args = some vs
  | .positional values, hi => by
    obtain ⟨vs, hvs⟩ := exists_evalAll values hi
    exact ⟨_, by rw [Shape.evalArgs, hvs]; rfl⟩
  | .named fs, hi => by
    obtain ⟨vs, hvs⟩ := exists_evalFields fs hi
    exact ⟨_, by rw [Shape.evalArgs, hvs]; rfl⟩
theorem exists_evalAll : ∀ ss : List Shape, (∀ n ∈ Shape.nodesAll ss, defect? owner n = none) →
    ∃ vs, Shape.evalAll M (owner.valueBehind? ev) ss = some vs
  | [], _ => ⟨[], rfl⟩
  | s :: rest, hi => by
    obtain ⟨his, hir⟩ := List.forall_mem_append.mp hi
    obtain ⟨v, hv⟩ := exists_eval s his
    obtain ⟨vs, hvs⟩ := exists_evalAll rest hir
    exact ⟨v :: vs, by rw [Shape.evalAll, hv, hvs]; rfl⟩
theorem exists_evalFields : ∀ fs : List (Member × Shape),
    (∀ n ∈ Shape.nodesFields fs, defect? owner n = none) →
    ∃ vs, Shape.evalFields M (owner.valueBehind? ev) fs = some vs
  | [], _ => ⟨[], rfl⟩
  | (m, s) :: rest, hi => by
    obtain ⟨his, hir⟩ := List.forall_mem_append.mp hi
    obtain ⟨v, hv⟩ := exists_eval s his
    obtain ⟨vs, hvs⟩ := exists_evalFields rest hir
    exact ⟨(m, v) :: vs, by rw [Shape.evalFields, hv, hvs]; rfl⟩
end

variable {M ev}

theorem eval_of_fragment {s : Shape} {f : Fragment} (hi : Intact owner s)
    (hs : store.Sound M ev (owner.valueBehind? ev) s.nodes) (hf : store s = some f) :
    s.eval M (owner.valueBehind? ev) = some (ev f) := by
  obtain ⟨v, hv⟩ := exists_eval M ev s hi
  rw [hv, hs s (Shape.self_mem_nodes s) f hf v hv]

end value

section client

variable {refer : Fragment → DataType → Reference} {read : Reference → Option V}

theorem eval_replace {s r : Shape} {slots : List Slot} (hi : Intact owner s)
    (hs : store.Sound M ev (owner.valueBehind? ev) s.nodes)
    (hread : ∀ d ∈ Client.demand store s slots,
      read (Client.answer refer d) = some (ev d.fragment))
    (hr : (∀ d ∈ slots, read (Client.answer refer d) = some (ev d.fragment)) →
      r.eval M read = s.eval M (owner.valueBehind? ev)) :
    (Client.replace store refer s r).eval M read = s.eval M (owner.valueBehind? ev) := by
  cases hf : store s with
  | none =>
    simp only [Client.demand, hf] at hread
    simpa only [Client.replace, hf] using hr hread
  | some f =>
    simp only [Client.demand, hf] at hread
    rw [eval_of_fragment hi hs hf, Client.replace, hf]
    exact hread ⟨f, s.type⟩ (List.mem_singleton_self _)

mutual
theorem eval_residue : ∀ s : Shape, (∀ n ∈ s.nodes, defect? owner n = none) →
    store.Sound M ev (owner.valueBehind? ev) s.nodes →
    (∀ d ∈ Client.demands store owner.behind? s,
      read (Client.answer refer d) = some (ev d.fragment)) →
    (Client.residue store owner.behind? refer s).eval M read =
      s.eval M (owner.valueBehind? ev)
  | .construct type args, hi, hs, hread => by
    have ha := eval_residueArgs args (List.forall_mem_cons.mp hi).2 (List.forall_mem_cons.mp hs).2
      hread
    rw [Client.residue, Shape.eval, Shape.eval, ha]
  | .memberInit type args assignments, hi, hs, hread => by
    obtain ⟨hia, hif⟩ := List.forall_mem_append.mp (List.forall_mem_cons.mp hi).2
    obtain ⟨hsa, hsf⟩ := List.forall_mem_append.mp (List.forall_mem_cons.mp hs).2
    obtain ⟨hra, hrf⟩ := List.forall_mem_append.mp hread
    have ha := eval_residueArgs args hia hsa hra
    have hf := eval_residueFields assignments hif hsf hrf
    rw [Client.residue, Shape.eval, Shape.eval, ha, hf]
  | .entity type buffer, hi, _, hread => by
    obtain ⟨a, f, -, -, hb⟩ := exists_behind?_of_intact hi
    simp only [Client.demands, hb, Option.toList_some, List.map_cons, List.map_nil,
      List.forall_mem_singleton, Client.answer] at hread
    simp only [Client.residue, hb, Shape.eval, hread, Select.valueBehind?, Option.map_some]
  | .attach e navigation value, hi, hs, hread => by
    obtain ⟨hie, hiv⟩ := List.forall_mem_append.mp (List.forall_mem_cons.mp hi).2
    obtain ⟨hse, hsv⟩ := List.forall_mem_append.mp (List.forall_mem_cons.mp hs).2
    obtain ⟨hre, hrv⟩ := List.forall_mem_append.mp hread
    have he := eval_residue e hie hse hre
    have hv := eval_residue value hiv hsv hrv
    rw [Client.residue, Shape.eval, Shape.eval, he, hv]
  | .parameter p, hi, hs, hread => by
    by_cases hp : p.type.isEnumerable
    · simp only [Client.residue, hp, if_true, Shape.eval]
    · simp only [Client.demands, hp] at hread
      simp only [Client.residue, hp]
      exact eval_replace hi hs hread fun _ => rfl
  | .group _, _, _, _ => rfl
  | .constant .., hi, hs, hread | .column .., hi, hs, hread =>
    eval_replace hi hs hread fun _ => rfl
  | .binary left op right type, hi, hs, hread => by
    apply eval_replace hi hs hread
    intro hread
    obtain ⟨hil, hir⟩ := List.forall_mem_append.mp (List.forall_mem_cons.mp hi).2
    obtain ⟨hsl, hsr⟩ := List.forall_mem_append.mp (List.forall_mem_cons.mp hs).2
    obtain ⟨hrl, hrr⟩ := List.forall_mem_append.mp hread
    have hl := eval_residue left hil hsl hrl
    have hr := eval_residue right hir hsr hrr
    rw [Shape.eval, Shape.eval, hl, hr]
  | .call function args type, hi, hs, hread => by
    apply eval_replace hi hs hread
    intro hread
    have ha := eval_residueAll args (List.forall_mem_cons.mp hi).2 (List.forall_mem_cons.mp hs).2
      hread
    rw [Shape.eval, Shape.eval, ha]
  | .reference r, hi, _, _ => absurd hi (not_intact_reference r)
  | .lookup _, _, _, _ => rfl
theorem eval_residueArgs : ∀ args : Args Shape,
    (∀ n ∈ Shape.nodesArgs args, defect? owner n = none) →
    store.Sound M ev (owner.valueBehind? ev) (Shape.nodesArgs args) →
    (∀ d ∈ Client.demandsArgs store owner.behind? args,
      read (Client.answer refer d) = some (ev d.fragment)) →
    Shape.evalArgs M read (Client.residueArgs store owner.behind? refer args) =
      Shape.evalArgs M (owner.valueBehind? ev) args
  | .positional values, hi, hs, hread => by
    rw [Client.residueArgs, Shape.evalArgs, Shape.evalArgs, eval_residueAll values hi hs hread]
  | .named fs, hi, hs, hread => by
    rw [Client.residueArgs, Shape.evalArgs, Shape.evalArgs, eval_residueFields fs hi hs hread]
theorem eval_residueAll : ∀ ss : List Shape, (∀ n ∈ Shape.nodesAll ss, defect? owner n = none) →
    store.Sound M ev (owner.valueBehind? ev) (Shape.nodesAll ss) →
    (∀ d ∈ Client.demandsAll store owner.behind? ss,
      read (Client.answer refer d) = some (ev d.fragment)) →
    Shape.evalAll M read (Client.residueAll store owner.behind? refer ss) =
      Shape.evalAll M (owner.valueBehind? ev) ss
  | [], _, _, _ => rfl
  | s :: rest, hi, hs, hread => by
    obtain ⟨his, hir⟩ := List.forall_mem_append.mp hi
    obtain ⟨hss, hsr⟩ := List.forall_mem_append.mp hs
    obtain ⟨hrs, hrr⟩ := List.forall_mem_append.mp hread
    have hv := eval_residue s his hss hrs
    have hvs := eval_residueAll rest hir hsr hrr
    rw [Client.residueAll, Shape.evalAll, Shape.evalAll, hv, hvs]
theorem eval_residueFields : ∀ fs : List (Member × Shape),
    (∀ n ∈ Shape.nodesFields fs, defect? owner n = none) →
    store.Sound M ev (owner.valueBehind? ev) (Shape.nodesFields fs) →
    (∀ d ∈ Client.demandsFields store owner.behind? fs,
      read (Client.answer refer d) = some (ev d.fragment)) →
    Shape.evalFields M read (Client.residueFields store owner.behind? refer fs) =
      Shape.evalFields M (owner.valueBehind? ev) fs
  | [], _, _, _ => rfl
  | (m, s) :: rest, hi, hs, hread => by
    obtain ⟨his, hir⟩ := List.forall_mem_append.mp hi
    obtain ⟨hss, hsr⟩ := List.forall_mem_append.mp hs
    obtain ⟨hrs, hrr⟩ := List.forall_mem_append.mp hread
    have hv := eval_residue s his hss hrs
    have hvs := eval_residueFields rest hir hsr hrr
    rw [Client.residueFields, Shape.evalFields, Shape.evalFields, hv, hvs]
end

end client

section server

variable {read : Reference → Option V}

theorem eval_leaf {s : Shape} {path : Address} (hi : Intact owner s)
    (hs : store.Sound M ev (owner.valueBehind? ev) s.nodes)
    (ho : Server.unanswered store path s = [])
    (hread : ∀ e ∈ (store s).toList.map (path, ·), ∀ type,
      read ⟨owner.id, .address e.1, type⟩ = some (ev e.2)) :
    read ⟨owner.id, .address path, s.type⟩ = s.eval M (owner.valueBehind? ev) := by
  cases hf : store s with
  | none => simp [Server.unanswered, hf] at ho
  | some f =>
    rw [eval_of_fragment hi hs hf]
    exact hread (path, f) (by simp [hf]) s.type

mutual
theorem eval_addressed : ∀ (s : Shape) (path : Address),
    (∀ n ∈ s.nodes, defect? owner n = none) →
    store.Sound M ev (owner.valueBehind? ev) s.nodes → Server.obstacles store path s = [] →
    (∀ e ∈ Server.recordings store owner.behind? path s, ∀ type,
      read ⟨owner.id, .address e.1, type⟩ = some (ev e.2)) →
    (Server.addressed owner.id path s).eval M read = s.eval M (owner.valueBehind? ev)
  | .construct _ args, path, hi, hs, ho, hread => by
    have ha := eval_addressedArgs args path (List.forall_mem_cons.mp hi).2
      (List.forall_mem_cons.mp hs).2 ho hread
    rw [Server.addressed, Shape.eval, Shape.eval, ha]
  | .memberInit _ args assignments, path, hi, hs, ho, hread => by
    obtain ⟨hia, hif⟩ := List.forall_mem_append.mp (List.forall_mem_cons.mp hi).2
    obtain ⟨hsa, hsf⟩ := List.forall_mem_append.mp (List.forall_mem_cons.mp hs).2
    obtain ⟨hoa, hof⟩ := List.append_eq_nil_iff.mp ho
    obtain ⟨hra, hrf⟩ := List.forall_mem_append.mp hread
    have ha := eval_addressedArgs args path hia hsa hoa hra
    have hf := eval_addressedFields assignments path hif hsf hof hrf
    rw [Server.addressed, Shape.eval, Shape.eval, ha, hf]
  | .entity type buffer, path, hi, _, _, hread => by
    obtain ⟨a, f, -, -, hb⟩ := exists_behind?_of_intact hi
    simp only [Server.recordings, hb, Option.toList_some, List.map_cons, List.map_nil,
      List.forall_mem_singleton] at hread
    simp only [Server.addressed, Shape.eval, hread, Select.valueBehind?, hb, Option.map_some]
  | .attach .., _, _, _, ho, _ => by simp [Server.obstacles] at ho
  | .parameter p, path, hi, hs, ho, hread => by
    by_cases hp : p.type.isEnumerable
    · simp only [Server.addressed, hp, if_true, Shape.eval]
    · simp only [Server.obstacles, hp] at ho
      simp only [Server.recordings, hp] at hread
      simp only [Server.addressed, hp]
      exact eval_leaf hi hs ho hread
  | .constant .., _, hi, hs, ho, hread | .column .., _, hi, hs, ho, hread
  | .binary .., _, hi, hs, ho, hread | .call .., _, hi, hs, ho, hread => eval_leaf hi hs ho hread
  | .group _, _, _, _, _, _ | .lookup _, _, _, _, _, _ => rfl
  | .reference r, _, hi, _, _, _ => absurd hi (not_intact_reference r)
theorem eval_addressedArgs : ∀ (args : Args Shape) (path : Address),
    (∀ n ∈ Shape.nodesArgs args, defect? owner n = none) →
    store.Sound M ev (owner.valueBehind? ev) (Shape.nodesArgs args) →
    Server.obstaclesArgs store path args = [] →
    (∀ e ∈ Server.recordingsArgs store owner.behind? path args, ∀ type,
      read ⟨owner.id, .address e.1, type⟩ = some (ev e.2)) →
    Shape.evalArgs M read (Server.addressedArgs owner.id path args) =
      Shape.evalArgs M (owner.valueBehind? ev) args
  | .positional [], _, _, _, _, _ => rfl
  | .positional (_ :: _), _, _, _, ho, _ => by simp [Server.obstaclesArgs] at ho
  | .named fs, path, hi, hs, ho, hread => by
    rw [Server.addressedArgs, Shape.evalArgs, Shape.evalArgs,
      eval_addressedFields fs path hi hs ho hread]
theorem eval_addressedFields : ∀ (fs : List (Member × Shape)) (path : Address),
    (∀ n ∈ Shape.nodesFields fs, defect? owner n = none) →
    store.Sound M ev (owner.valueBehind? ev) (Shape.nodesFields fs) →
    Server.obstaclesFields store path fs = [] →
    (∀ e ∈ Server.recordingsFields store owner.behind? path fs, ∀ type,
      read ⟨owner.id, .address e.1, type⟩ = some (ev e.2)) →
    Shape.evalFields M read (Server.addressedFields owner.id path fs) =
      Shape.evalFields M (owner.valueBehind? ev) fs
  | [], _, _, _, _, _ => rfl
  | (m, s) :: rest, path, hi, hs, ho, hread => by
    obtain ⟨his, hir⟩ := List.forall_mem_append.mp hi
    obtain ⟨hss, hsr⟩ := List.forall_mem_append.mp hs
    obtain ⟨hos, hor⟩ := List.append_eq_nil_iff.mp ho
    obtain ⟨hrs, hrr⟩ := List.forall_mem_append.mp hread
    have hv := eval_addressed s (path.child m) his hss hos hrs
    have hvs := eval_addressedFields rest path hir hsr hor hrr
    rw [Server.addressedFields, Shape.evalFields, Shape.evalFields, hv, hvs]
end

end server

theorem eval_clientBound {s : Shape} (hi : Intact owner s)
    (hs : store.Sound M ev (owner.valueBehind? ev) s.nodes) :
    let after := (projected store owner s).install ∅
    (clientBound store owner s).eval M (after.fetch? (after.row ev)) =
      s.eval M (owner.valueBehind? ev) := by
  apply eval_residue s hi hs
  intro d hd
  rw [Select.fetch?_row, read?_answer hd, Option.map_some]

theorem eval_serverBound {s : Shape} (hi : Intact owner s)
    (hs : store.Sound M ev (owner.valueBehind? ev) s.nodes)
    (ho : Server.obstacles store .root s = []) (hn : s.NamesOnce) :
    let flat := (owner.install (serverMapping store owner s)).flatten
    (serverBound owner s).eval M (flat.fetch? (flat.row ev)) =
      s.eval M (owner.valueBehind? ev) := by
  apply eval_addressed s .root hi hs ho
  intro e he type
  have hg : (serverMapping store owner s).get? e.1 = some e.2 :=
    OrderedMap.get?_ofList_of_mem (Server.nodup_recordings s .root hn) he
  rw [Select.fetch?_row]
  exact congrArg (Option.map ev) (Select.read?_flatten hg type)

/-- A bound shape has the value of the shape, on the client at once and on the server after the
mapping is flattened, if no construction names a member twice. -/
theorem eval_bindShape (M : Meaning V) (ev : Fragment → V) (config : Config) (store : Store)
    (s : Shape) (owner : Select) (hs : store.Sound M ev (owner.valueBehind? ev) s.nodes)
    {b : Shape} {mode : Mode} (h : (bindShape config store s owner).1.result = .ok ⟨b, mode⟩) :
    let after := (bindShape config store s owner).2
    let flat := after.flatten
    ∃ v, s.eval M (owner.valueBehind? ev) = some v ∧
      (mode = .client → b.eval M (after.fetch? (after.row ev)) = some v) ∧
      (mode = .server → s.NamesOnce → b.eval M (flat.fetch? (flat.row ev)) = some v) := by
  cases mode with
  | client =>
    obtain ⟨hi, rfl, ha⟩ := eq_of_bindShape_client h
    obtain ⟨v, hv⟩ := exists_eval M ev s hi
    rw [ha]
    exact ⟨v, hv, fun _ => (eval_clientBound hi hs).trans hv, nofun⟩
  | server =>
    obtain ⟨hi, ho, rfl, ha⟩ := eq_of_bindShape_server h
    obtain ⟨v, hv⟩ := exists_eval M ev s hi
    rw [ha]
    exact ⟨v, hv, nofun, fun _ hn => (eval_serverBound hi hs ho hn).trans hv⟩

/-- Every scalar means the fragment that evaluates it, and every other node a call of its parts. -/
def symbolic : Meaning Fragment where
  column := .column
  constant := .constant
  parameter p := .parameter p.name p.type
  group p := .parameter p.name p.type
  binary := .binary
  call function args type := .call (upperCase function) args type
  construct type args := .call type args.values (.object type)
  memberInit type args assignments :=
    .call type (args.values ++ assignments.map Prod.snd) (.object type)
  attach e navigation value := .call navigation [e, value] (.object navigation)
  entity type v := .call type [v] (.entity type)

theorem eval_bindShape_customerView :
    (∃ b v, (bindShape {} standardStore (customerView localName) customers).1.result =
        .ok ⟨b, .client⟩ ∧
      let after := (bindShape {} standardStore (customerView localName) customers).2
      (customerView localName).eval symbolic (customers.valueBehind? id) = some v ∧
      b.eval symbolic (after.fetch? (after.row id)) = some v) ∧
    ∃ b v, (bindShape {} standardStore (customerView upperName) customers).1.result =
        .ok ⟨b, .server⟩ ∧
      let flat := (bindShape {} standardStore (customerView upperName) customers).2.flatten
      (customerView upperName).eval symbolic (customers.valueBehind? id) = some v ∧
      b.eval symbolic (flat.fetch? (flat.row id)) = some v := by
  constructor
  · have hs : standardStore.Sound symbolic id (customers.valueBehind? id)
        (customerView localName).nodes := by decide
    obtain ⟨v, hv, hc, -⟩ :=
      eval_bindShape symbolic id {} standardStore (customerView localName) customers hs rfl
    exact ⟨_, v, rfl, hv, hc rfl⟩
  · have hs : standardStore.Sound symbolic id (customers.valueBehind? id)
        (customerView upperName).nodes := by decide
    have hn : (customerView upperName).NamesOnce := by decide
    obtain ⟨v, hv, -, hf⟩ :=
      eval_bindShape symbolic id {} standardStore (customerView upperName) customers hs rfl
    exact ⟨_, v, rfl, hv, hf rfl hn⟩

end Binding

end QueryShaping
