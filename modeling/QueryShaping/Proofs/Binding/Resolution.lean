import QueryShaping.Proofs.Binding.Paths
import QueryShaping.Proofs.Select.Permanence

/-!
What becomes of the references of a bound shape. Main statement: they belong to the select that the
shape was bound against, and either read slots, at once and for ever, or addresses, which the next
flattening resolves to what is mapped there (`bindShape_resolves`).
-/

namespace QueryShaping.Binding

namespace Server

variable {store : Store} {owner : Select}

/-- The node is no attachment, and nothing is left to be looked up there. -/
def Finished (n : Shape) : Prop := n.kind ≠ .attach ∧ n.kind ≠ .lookup

mutual
/-- A shape without obstacles is finished by the store alone. -/
theorem finished_addressed : ∀ (s : Shape) (path : Address),
    (∀ n ∈ s.nodes, defect? owner n = none) → obstacles store path s = [] →
    ∀ n ∈ (addressed owner.id path s).nodes, Finished n
  | .construct _ args, path, hi, ho => by
    have ha := finished_addressedArgs args path (List.forall_mem_cons.mp hi).2 ho
    exact List.forall_mem_cons.mpr ⟨⟨nofun, nofun⟩, ha⟩
  | .memberInit _ args assignments, path, hi, ho => by
    obtain ⟨hia, hif⟩ := List.forall_mem_append.mp (List.forall_mem_cons.mp hi).2
    obtain ⟨hoa, hof⟩ := List.append_eq_nil_iff.mp ho
    have ha := finished_addressedArgs args path hia hoa
    have hf := finished_addressedFields assignments path hif hof
    exact List.forall_mem_cons.mpr ⟨⟨nofun, nofun⟩, List.forall_mem_append.mpr ⟨ha, hf⟩⟩
  | .attach .., _, _, ho => by simp [obstacles] at ho
  | .parameter p, path, _, _ => by
    by_cases hp : p.type.isEnumerable
    · simp [addressed, hp, Shape.nodes, Finished, Shape.kind]
    · simp [addressed, hp, Shape.nodes, Finished, Shape.kind]
  | .entity .., _, _, _ | .constant .., _, _, _ | .column .., _, _, _ | .binary .., _, _, _
  | .call .., _, _, _ | .group _, _, _, _ => List.forall_mem_singleton.mpr ⟨nofun, nofun⟩
  | .reference r, _, hi, _ => absurd hi (not_intact_reference r)
  | .lookup p, _, hi, _ => absurd hi (not_intact_lookup p)
theorem finished_addressedArgs : ∀ (args : Args Shape) (path : Address),
    (∀ n ∈ Shape.nodesArgs args, defect? owner n = none) → obstaclesArgs store path args = [] →
    ∀ n ∈ Shape.nodesArgs (addressedArgs owner.id path args), Finished n
  | .positional [], _, _, _ => List.forall_mem_nil _
  | .positional (_ :: _), _, _, ho => by simp [obstaclesArgs] at ho
  | .named fs, path, hi, ho => finished_addressedFields fs path hi ho
theorem finished_addressedFields : ∀ (fs : List (Member × Shape)) (path : Address),
    (∀ n ∈ Shape.nodesFields fs, defect? owner n = none) → obstaclesFields store path fs = [] →
    ∀ n ∈ Shape.nodesFields (addressedFields owner.id path fs), Finished n
  | [], _, _, _ => List.forall_mem_nil _
  | (m, s) :: rest, path, hi, ho => by
    obtain ⟨his, hir⟩ := List.forall_mem_append.mp hi
    obtain ⟨hos, hor⟩ := List.append_eq_nil_iff.mp ho
    have hs := finished_addressed s (path.child m) his hos
    have hr := finished_addressedFields rest path hir hor
    exact List.forall_mem_append.mpr ⟨hs, hr⟩
end

end Server

variable {store : Store} {s : Shape} {owner : Select}

theorem exists_get?_serverMapping {e : Address × Fragment}
    (he : e ∈ Server.recordings store owner.behind? .root s) :
    ∃ f, (serverMapping store owner s).get? e.1 = some f := by
  have hk : e.1 ∈ (serverMapping store owner s).keys := by
    rw [serverMapping, OrderedMap.keys_ofList, List.mem_eraseDups]
    exact List.mem_map_of_mem he
  exact Option.isSome_iff_exists.mp (OrderedMap.contains_iff.mpr hk)

/-- The references of a bound shape belong to the select. On the client they are slots, which every
later state of the select answers; on the server they are addresses, which no state answers until
the select is flattened, and then with a slot of the fragment that is mapped there. -/
theorem bindShape_resolves (config : Config) (store : Store) (s : Shape) (owner : Select)
    {b : Shape} {mode : Mode} (h : (bindShape config store s owner).1.result = .ok ⟨b, mode⟩) :
    let after := (bindShape config store s owner).2
    (∀ r ∈ b.references, r.query = owner.id) ∧
    (mode = .client → ∀ r ∈ b.references, ∃ i, r.target = .slot i ∧
      ∀ later, (after.run later).slot? r = some i) ∧
    (mode = .server → (∀ n ∈ b.nodes, n.kind ≠ .attach ∧ n.kind ≠ .lookup) ∧
      ∀ r ∈ b.references, ∃ a f, r.target = .address a ∧ after.mapping.get? a = some f ∧
        (∀ later, .flatten ∉ later → (after.run later).slot? r = none) ∧
        ∃ i, after.flatten.slot? r = some i ∧ after.flatten.fragments[i]? = some f) := by
  cases mode with
  | client =>
    obtain ⟨hi, rfl, ha⟩ := eq_of_bindShape_client h
    rw [ha]
    refine ⟨fun r hr => (slot_of_mem_clientBound hi hr).1, fun _ r hr => ?_, nofun⟩
    obtain ⟨hq, i, ht, hl⟩ := slot_of_mem_clientBound hi hr
    have hid : ((projected store owner s).install ∅).id = owner.id := Select.id_addAll owner _
    exact ⟨i, ht, Select.slot?_run_slot (hq.trans hid.symm) ht hl⟩
  | server =>
    obtain ⟨hi, ho, rfl, ha⟩ := eq_of_bindShape_server h
    rw [ha]
    refine ⟨fun r hr => (address_of_mem_serverBound hi ho hr).1, nofun, fun _ => ⟨?_, ?_⟩⟩
    · exact Server.finished_addressed s .root hi ho
    · intro r hr
      obtain ⟨hq, e, he, ht⟩ := address_of_mem_serverBound hi ho hr
      obtain ⟨f, hf⟩ := exists_get?_serverMapping he
      have hr : r = ⟨owner.id, .address e.1, r.type⟩ := by rw [← hq, ← ht]
      have hread : (owner.install (serverMapping store owner s)).flatten.read? r = some f := by
        rw [hr]
        exact Select.read?_flatten hf r.type
      -- The installation has emptied the table, and until the next flattening nothing fills it.
      exact ⟨e.1, f, ht, hf, fun later hl => Select.slot?_run_of_not_flatten rfl hl ht,
        Option.bind_eq_some_iff.mp hread⟩

theorem bindShape_resolves_customerView :
    (let run := bindShape {} standardStore (customerView localName) customers
      ∃ b, run.1.result = .ok ⟨b, .client⟩ ∧ ∀ r ∈ b.references, r.query = ⟨1⟩ ∧
        ∃ i, r.target = .slot i ∧ ∀ later, (run.2.run later).slot? r = some i) ∧
    (let run := bindShape {} standardStore (customerView upperName) customers
      ∃ b, run.1.result = .ok ⟨b, .server⟩ ∧ ∀ r ∈ b.references, r.query = ⟨1⟩ ∧
        run.2.slot? r = none ∧ ∃ i, run.2.flatten.slot? r = some i) := by
  constructor
  · obtain ⟨hq, hc, -⟩ :=
      bindShape_resolves {} standardStore (customerView localName) customers rfl
    exact ⟨_, rfl, fun r hr => ⟨hq r hr, hc rfl r hr⟩⟩
  · obtain ⟨hq, -, hs⟩ :=
      bindShape_resolves {} standardStore (customerView upperName) customers rfl
    refine ⟨_, rfl, fun r hr => ?_⟩
    obtain ⟨a, f, -, -, hn, i, hi, -⟩ := (hs rfl).2 r hr
    exact ⟨hq r hr, hn [] List.not_mem_nil, i, hi⟩

end QueryShaping.Binding
