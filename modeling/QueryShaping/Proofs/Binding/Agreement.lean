import QueryShaping.Proofs.Binding.Paths
import QueryShaping.Proofs.Binding.Projection
import QueryShaping.Proofs.Select.Flatten

/-!
What the two modes read. A shape that can be bound on the server is bound on the client as the only
argument by position of another. Main statement: on the client every reference reads the fragment of
its leaf, on the server the fragment of the last leaf at the same address; where no construction
names a member twice, these are the same (`bindShape_modes_agree`).
-/

namespace QueryShaping.Binding

variable {store : Store} {behind? : Reference → Option Fragment}

theorem fragments_demand {s : Shape} {path : Address} (slots : List Slot)
    (h : Server.unanswered store path s = []) :
    (Client.demand store s slots).map Slot.fragment =
      ((store s).toList.map (path, ·)).map Prod.snd := by
  cases hs : store s with
  | none => simp [Server.unanswered, hs] at h
  | some f => simp [Client.demand, hs]

mutual
/-- Where nothing is an obstacle, both passes take the fragments of the same leaves. -/
theorem fragments_demands : ∀ (s : Shape) (path : Address), Server.obstacles store path s = [] →
    (Client.demands store behind? s).map Slot.fragment =
      (Server.recordings store behind? path s).map Prod.snd
  | .construct _ args, path, ho => fragments_demandsArgs args path ho
  | .memberInit _ args assignments, path, ho => by
    obtain ⟨hoa, hof⟩ := List.append_eq_nil_iff.mp ho
    rw [Client.demands, Server.recordings, List.map_append, List.map_append,
      fragments_demandsArgs args path hoa, fragments_demandsFields assignments path hof]
  | .entity _ buffer, path, _ => by
    cases h : behind? buffer <;> simp [Client.demands, Server.recordings, h]
  | .attach .., _, ho => by simp [Server.obstacles] at ho
  | .parameter p, path, ho => by
    by_cases hp : p.type.isEnumerable
    · simp [Client.demands, Server.recordings, hp]
    · simp only [Server.obstacles, hp] at ho
      simp only [Client.demands, Server.recordings, hp]
      exact fragments_demand [] ho
  | .constant .., _, ho | .column .., _, ho | .binary .., _, ho | .call .., _, ho =>
    fragments_demand _ ho
  | .group _, _, _ | .reference _, _, _ | .lookup _, _, _ => rfl
theorem fragments_demandsArgs : ∀ (args : Args Shape) (path : Address),
    Server.obstaclesArgs store path args = [] →
    (Client.demandsArgs store behind? args).map Slot.fragment =
      (Server.recordingsArgs store behind? path args).map Prod.snd
  | .positional [], _, _ => rfl
  | .positional (_ :: _), _, ho => by simp [Server.obstaclesArgs] at ho
  | .named fs, path, ho => fragments_demandsFields fs path ho
theorem fragments_demandsFields : ∀ (fs : List (Member × Shape)) (path : Address),
    Server.obstaclesFields store path fs = [] →
    (Client.demandsFields store behind? fs).map Slot.fragment =
      (Server.recordingsFields store behind? path fs).map Prod.snd
  | [], _, _ => rfl
  | (m, s) :: rest, path, ho => by
    obtain ⟨hos, hor⟩ := List.append_eq_nil_iff.mp ho
    rw [Client.demandsFields, Server.recordingsFields, List.map_append, List.map_append,
      fragments_demands s (path.child m) hos, fragments_demandsFields rest path hor]
end

variable {owner : Select} {s : Shape}

theorem map_read?_serverBound (hi : Intact owner s) (ho : Server.obstacles store .root s = []) :
    (serverBound owner s).references.map
        (owner.install (serverMapping store owner s)).flatten.read? =
      (Server.recordings store owner.behind? .root s).map fun e =>
        (Server.recordings store owner.behind? .root s).reverse.lookup e.1 := by
  -- what a reference reads does not depend on its type
  have hr : (owner.install (serverMapping store owner s)).flatten.read? =
      (fun p => (owner.install (serverMapping store owner s)).flatten.read?
        ⟨p.1, p.2, .valueBuffer⟩) ∘ fun r => (r.query, r.target) := rfl
  rw [hr, ← List.map_map, serverBound, Server.references_addressed s .root hi ho, List.map_map]
  refine List.map_congr_left fun e _ => ?_
  rw [← OrderedMap.get?_ofList]
  exact Select.read?_flatten_eq _ e.1 .valueBuffer

/-- A shape as the only argument of a construction by position, which keeps it from the server. -/
def tuple (type : String) (s : Shape) : Shape := .construct type (.positional [s])

theorem intact_tuple (type : String) (hi : Intact owner s) : Intact owner (tuple type s) := by
  intro n hn
  rcases List.mem_cons.mp hn with rfl | hn
  · rfl
  · rw [Shape.nodesArgs, Shape.nodesAll, Shape.nodesAll, List.append_nil] at hn
    exact hi n hn

theorem demands_tuple (type : String) (s : Shape) :
    Client.demands store behind? (tuple type s) = Client.demands store behind? s :=
  List.append_nil _

theorem map_read?_tuple (type : String) (hi : Intact owner s)
    (ho : Server.obstacles store .root s = []) :
    (clientBound store owner (tuple type s)).references.map
        ((projected store owner (tuple type s)).install ∅).read? =
      (Server.recordings store owner.behind? .root s).map fun e => some e.2 := by
  rw [map_read?_references (intact_tuple type hi), demands_tuple, fragments_demands s .root ho,
    List.map_map]
  rfl

/-- Bound on the server, a shape reads for every leaf the fragment of the last leaf at its address;
bound on the client as part of a tuple, it reads the fragment of the leaf itself. -/
theorem bindShape_modes_agree (config : Config) (store : Store) (s : Shape) (owner : Select)
    {b : Shape}
    (h : (bindShape config store s owner).1.result = .ok ⟨b, .server⟩)
    (type : String) (sensitive : Bool) :
    let recorded := Server.recordings store owner.behind? .root s
    let flat := (bindShape config store s owner).2.flatten
    let tupled := bindShape ⟨.allow, sensitive⟩ store (tuple type s) owner
    ∃ c, tupled.1.result = .ok ⟨c, .client⟩ ∧
      c.references.length = b.references.length ∧
      c.references.map tupled.2.read? = recorded.map (fun e => some e.2) ∧
      b.references.map flat.read? = recorded.map (fun e => recorded.reverse.lookup e.1) ∧
      (s.NamesOnce → b.references.map flat.read? = c.references.map tupled.2.read?) := by
  obtain ⟨hi, ho, rfl, ha⟩ := eq_of_bindShape_server h
  have hc : (bindShape ⟨.allow, sensitive⟩ store (tuple type s)).Returns owner _ _ :=
    bindShape_client (intact_tuple type hi) rfl nofun
  obtain ⟨steps, hc⟩ := hc
  rw [ha, hc]
  have hclient := map_read?_tuple type hi ho
  have hserver := map_read?_serverBound hi ho
  refine ⟨_, rfl, ?_, hclient, hserver, fun hn => hserver.trans (Eq.trans ?_ hclient.symm)⟩
  · have hl := congrArg List.length hclient
    have hl' := congrArg List.length hserver
    rw [List.length_map, List.length_map] at hl hl'
    rw [hl, hl']
  · refine List.map_congr_left fun e he => ?_
    rw [← OrderedMap.get?_ofList]
    exact OrderedMap.get?_ofList_of_mem (Server.nodup_recordings s .root hn) he

theorem bindShape_modes_agree_customerView :
    ∃ b c, (bindShape {} standardStore (customerView upperName) customers).1.result =
        .ok ⟨b, .server⟩ ∧
      (bindShape {} standardStore (tuple "Tuple" (customerView upperName)) customers).1.result =
        .ok ⟨c, .client⟩ ∧
      (customerView upperName).NamesOnce ∧
      b.references.map
          (bindShape {} standardStore (customerView upperName) customers).2.flatten.read? =
        c.references.map
          (bindShape {} standardStore (tuple "Tuple" (customerView upperName))
            customers).2.read? := by
  have hn : (customerView upperName).NamesOnce := by decide
  obtain ⟨c, hc, -, -, -, hs⟩ :=
    bindShape_modes_agree {} standardStore (customerView upperName) customers rfl "Tuple" false
  exact ⟨_, c, rfl, hc, hn, hs hn⟩

/-- A construction that names a member twice. -/
def doubled : Shape :=
  .construct "Pair"
    (.named [(⟨"Pair", "Item"⟩, .column "c" "Id" .int64),
      (⟨"Pair", "Item"⟩, .column "c" "Name" .string)])

/-- Of two values for one member the server keeps the last, and the client reads both. -/
theorem modes_disagree_doubled :
    let server := bindShape {} standardStore doubled (Select.empty ⟨1⟩)
    let client := bindShape {} standardStore (tuple "Tuple" doubled) (Select.empty ⟨1⟩)
    ∃ b c, server.1.result = .ok ⟨b, .server⟩ ∧ client.1.result = .ok ⟨c, .client⟩ ∧
      b.references.map server.2.flatten.read? =
        [some (.column "c" "Name" .string), some (.column "c" "Name" .string)] ∧
      c.references.map client.2.read? =
        [some (.column "c" "Id" .int64), some (.column "c" "Name" .string)] :=
  ⟨_, _, rfl, rfl, by decide, by decide⟩

end QueryShaping.Binding
