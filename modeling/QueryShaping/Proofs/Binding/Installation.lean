import QueryShaping.Proofs.Binding.Paths
import QueryShaping.Proofs.Select.History

/-!
The mapping after a bind on the server. Main statement: what the pass recorded is installed, each
address once and with its last fragment, and the references of the bound shape are the recorded
addresses (`bindShape_server_exact`).
-/

namespace QueryShaping.Binding

/-- The recordings of a shape are installed. Nothing is projected, and no address has a slot, until
the select is flattened. -/
theorem bindShape_server_exact (config : Config) (store : Store) (s : Shape) (owner : Select)
    {b : Shape}
    (h : (bindShape config store s owner).1.result = .ok ⟨b, .server⟩) :
    let after := (bindShape config store s owner).2
    let recorded := Server.recordings store owner.behind? .root s
    after.mapping.keys = (recorded.map Prod.fst).eraseDups ∧
    (∀ a, after.mapping.get? a = recorded.reverse.lookup a) ∧
    b.references.map (fun r => (r.query, r.target)) =
      recorded.map (fun e => (owner.id, .address e.1)) ∧
    after.id = owner.id ∧
    after.projection = owner.projection ∧
    (∀ actions : List Select.Action, .flatten ∉ actions → ∀ query a type,
      (after.run actions).slot? ⟨query, .address a, type⟩ = none) ∧
    (s.NamesOnce → ∀ e ∈ recorded, after.mapping.get? e.1 = some e.2) := by
  obtain ⟨hi, ho, rfl, ha⟩ := eq_of_bindShape_server h
  rw [ha]
  have hslot : ∀ actions : List Select.Action, .flatten ∉ actions → ∀ query a type,
      ((owner.install (serverMapping store owner s)).run actions).slot?
        ⟨query, .address a, type⟩ = none := by
    intro actions hf query a type
    have hs : ((owner.install (serverMapping store owner s)).run actions).slots = ∅ :=
      Select.slots_run rfl hf
    simp only [Select.slot?, hs]
    split <;> rfl
  have hown : s.NamesOnce → ∀ e ∈ Server.recordings store owner.behind? .root s,
      (serverMapping store owner s).get? e.1 = some e.2 := by
    intro hn e he
    exact OrderedMap.get?_ofList_of_mem (Server.nodup_recordings s .root hn) he
  exact ⟨OrderedMap.keys_ofList _, OrderedMap.get?_ofList _,
    Server.references_addressed s .root hi ho, rfl, rfl, hslot, hown⟩

theorem bindShape_server_exact_upperName :
    ∃ b, (bindShape {} standardStore (customerView upperName) customers).1.result =
        .ok ⟨b, .server⟩ ∧
      (customerView upperName).NamesOnce ∧
      (bindShape {} standardStore (customerView upperName) customers).2.mapping.get?
          [⟨"View", "Customer"⟩] =
        some (.entity ⟨"Customer", "c", [("Id", .int64), ("Name", .string)]⟩) := by
  have hn : (customerView upperName).NamesOnce := by decide
  obtain ⟨-, -, -, -, -, -, hg⟩ :=
    bindShape_server_exact {} standardStore (customerView upperName) customers rfl
  exact ⟨_, rfl, hn, hg hn ([⟨"View", "Customer"⟩], _) (by decide)⟩

end QueryShaping.Binding
