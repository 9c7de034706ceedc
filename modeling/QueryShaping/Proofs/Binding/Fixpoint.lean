import QueryShaping.Proofs.Binding.Projection
import QueryShaping.Proofs.Binding.Resolution
import QueryShaping.Proofs.Binding.Visits

/-!
Binding what a bind answered. Nothing that binding makes can be bound, except for entities that are
read by address. Main statement: a bound shape is bound to itself, and the select stays as the first
bind left it, or else it is refused for the first node that cannot be bound (`bindShape_bound`).
-/

namespace QueryShaping.Binding

namespace Server

section addressed

variable (query : QueryId)

mutual
theorem addressed_addressed : ∀ (s : Shape) (path : Address),
    addressed query path (addressed query path s) = addressed query path s
  | .construct _ args, path => by rw [addressed, addressed, addressedArgs_addressedArgs args path]
  | .memberInit _ args assignments, path => by
    rw [addressed, addressed, addressedArgs_addressedArgs args path,
      addressedFields_addressedFields assignments path]
  | .parameter p, path => by
    by_cases hp : p.type.isEnumerable <;> simp [addressed, hp]
  | .entity .., _ | .attach .., _ | .group _, _ | .constant .., _ | .column .., _ | .binary .., _
  | .call .., _ | .reference _, _ | .lookup _, _ => rfl
theorem addressedArgs_addressedArgs : ∀ (args : Args Shape) (path : Address),
    addressedArgs query path (addressedArgs query path args) = addressedArgs query path args
  | .positional _, _ => rfl
  | .named fs, path => by
    rw [addressedArgs, addressedArgs, addressedFields_addressedFields fs path]
theorem addressedFields_addressedFields : ∀ (fs : List (Member × Shape)) (path : Address),
    addressedFields query path (addressedFields query path fs) = addressedFields query path fs
  | [], _ => rfl
  | (m, s) :: rest, path => by
    rw [addressedFields, addressedFields, addressed_addressed s (path.child m),
      addressedFields_addressedFields rest path]
end

/-- A visited node of the bound shape. -/
def readdress (p : Address × Shape) : Address × Shape := (p.1, addressed query p.1 p.2)

mutual
theorem visited_addressed : ∀ (s : Shape) (path : Address),
    visited path (addressed query path s) = (visited path s).map (readdress query)
  | .construct _ args, path => by
    rw [addressed, visited, visited, visitedArgs_addressedArgs args path, List.map_cons, readdress,
      addressed]
  | .memberInit _ args assignments, path => by
    rw [addressed, visited, visited, visitedArgs_addressedArgs args path,
      visitedFields_addressedFields assignments path, List.map_cons, List.map_append, readdress,
      addressed]
  | .parameter p, path => by
    by_cases hp : p.type.isEnumerable <;> simp [addressed, visited, readdress, hp]
  | .entity .., _ | .attach .., _ | .group _, _ | .constant .., _ | .column .., _ | .binary .., _
  | .call .., _ | .reference _, _ | .lookup _, _ => rfl
theorem visitedArgs_addressedArgs : ∀ (args : Args Shape) (path : Address),
    visitedArgs path (addressedArgs query path args) =
      (visitedArgs path args).map (readdress query)
  | .positional _, _ => rfl
  | .named fs, path => visitedFields_addressedFields fs path
theorem visitedFields_addressedFields : ∀ (fs : List (Member × Shape)) (path : Address),
    visitedFields path (addressedFields query path fs) =
      (visitedFields path fs).map (readdress query)
  | [], _ => rfl
  | (m, s) :: rest, path => by
    rw [addressedFields, visitedFields, visitedFields, visited_addressed s (path.child m),
      visitedFields_addressedFields rest path, List.map_append]
end

end addressed

variable {store : Store} {owner : Select} {s : Shape}

theorem obstacle?_addressed {query : QueryId} {path : Address} {n : Shape}
    (h : obstacle? store n = none) : obstacle? store (addressed query path n) = none := by
  cases n with
  | construct type args => cases args <;> exact h
  | memberInit type args assignments => cases args <;> exact h
  | parameter p =>
    by_cases hp : p.type.isEnumerable
    · simpa only [addressed, hp, if_true] using h
    · simp [addressed, hp, obstacle?, Shape.isScalar]
  | constant | column | binary | call => rfl
  | entity | attach | group | reference | lookup => exact h

theorem obstacles_serverBound (ho : obstacles store .root s = []) :
    obstacles store .root (serverBound owner s) = [] := by
  rw [obstacles_eq_nil_iff] at ho ⊢
  rw [serverBound, visited_addressed]
  intro p hp
  obtain ⟨q, hq, rfl⟩ := List.mem_map.mp hp
  exact obstacle?_addressed (ho q hq)

/-- Of a node that stands where it is addressed only an entity is recorded, with what is mapped
there. -/
theorem fragment?_addressed {after : Select} {path : Address} {n : Shape} {f : Fragment}
    (h : fragment? store after.behind? (addressed after.id path n) = some f) :
    after.mapping.get? path = some f := by
  cases n with
  | entity type buffer => exact h
  | parameter p =>
    by_cases hp : p.type.isEnumerable <;>
      simp [addressed, fragment?, Shape.isScalar, hp] at h
  | _ => cases h

theorem get?_of_mem_recordings {after : Select} {e : Address × Fragment}
    (he : e ∈ recordings store after.behind? .root (addressed after.id .root s)) :
    after.mapping.get? e.1 = some e.2 := by
  rw [recordings_eq, visited_addressed, List.filterMap_map] at he
  obtain ⟨p, -, hp⟩ := List.mem_filterMap.mp he
  obtain ⟨f, hf, rfl⟩ := Option.map_eq_some_iff.mp hp
  exact fragment?_addressed hf

end Server

section server

variable {store : Store} {owner : Select} {s : Shape}

/-- A shape bound on the server, against the select that the bind left: its entities can be bound,
its references cannot. -/
theorem defect?_serverBound (hi : Intact owner s) (ho : Server.obstacles store .root s = [])
    {n : Shape} (hn : n ∈ (serverBound owner s).nodes) :
    defect? (owner.install (serverMapping store owner s)) n =
      if n.kind = .reference then some (.alreadyBound .reference) else none := by
  cases n with
  | entity type buffer =>
    obtain ⟨hq, e, he, ht⟩ := address_of_mem_serverBound hi ho (Shape.buffer_mem_references hn)
    obtain ⟨f, hf⟩ := exists_get?_serverMapping he
    simp [defect?, hq, ht, hf, OrderedMap.contains, Select.install, Shape.kind]
  | lookup p => exact absurd rfl (Server.finished_addressed s .root hi ho _ hn).2
  | _ => rfl

theorem intact_serverBound (hi : Intact owner s) (ho : Server.obstacles store .root s = [])
    (hr : .reference ∉ (serverBound owner s).nodes.map Shape.kind) :
    Intact (owner.install (serverMapping store owner s)) (serverBound owner s) := by
  intro n hn
  have hk : n.kind ≠ .reference := fun hk => hr (hk ▸ List.mem_map_of_mem hn)
  rw [defect?_serverBound hi ho hn, if_neg hk]

theorem firstDefect_serverBound (hi : Intact owner s) (ho : Server.obstacles store .root s = [])
    (hr : .reference ∈ (serverBound owner s).nodes.map Shape.kind) :
    (serverBound owner s).nodes.findSome? (defect? (owner.install (serverMapping store owner s))) =
      some (.alreadyBound .reference) := by
  cases hf : (serverBound owner s).nodes.findSome?
      (defect? (owner.install (serverMapping store owner s))) with
  | none =>
    obtain ⟨n, hn, hk⟩ := List.mem_map.mp hr
    have hd := List.findSome?_eq_none_iff.mp hf n hn
    rw [defect?_serverBound hi ho hn, if_pos hk] at hd
    cases hd
  | some e =>
    obtain ⟨n, hn, he⟩ := List.exists_of_findSome?_eq_some hf
    rw [defect?_serverBound hi ho hn] at he
    split at he
    · exact he.symm
    · cases he

/-- The leaves stand where they stood. -/
theorem map_fst_recordings_serverBound (hi : Intact owner s)
    (ho : Server.obstacles store .root s = [])
    (hi' : Intact (owner.install (serverMapping store owner s)) (serverBound owner s)) :
    (Server.recordings store (owner.install (serverMapping store owner s)).behind? .root
        (serverBound owner s)).map Prod.fst =
      (Server.recordings store owner.behind? .root s).map Prod.fst := by
  have hr := Server.references_addressed (serverBound owner s) .root hi'
    (Server.obstacles_serverBound ho)
  have ha : Server.addressed (owner.install (serverMapping store owner s)).id .root
      (serverBound owner s) = Server.addressed owner.id .root s :=
    Server.addressed_addressed owner.id s .root
  rw [ha, Server.references_addressed s .root hi ho] at hr
  have hinj : Function.Injective fun a : Address => (owner.id, Target.address a) :=
    fun a b h => Target.address.inj (Prod.mk.inj h).2
  apply List.map_injective_iff.mpr hinj
  rw [List.map_map, List.map_map]
  exact hr.symm

/-- What is recorded anew is what the mapping has, so that the mapping is filled as before. -/
theorem serverMapping_serverBound (hi : Intact owner s) (ho : Server.obstacles store .root s = [])
    (hi' : Intact (owner.install (serverMapping store owner s)) (serverBound owner s)) :
    serverMapping store (owner.install (serverMapping store owner s)) (serverBound owner s) =
      serverMapping store owner s := by
  refine OrderedMap.ofList_eq ?_ fun e he => ?_
  · rw [map_fst_recordings_serverBound hi ho hi', serverMapping, OrderedMap.keys_ofList]
  · have hg : (owner.install (serverMapping store owner s)).mapping.get? e.1 = some e.2 :=
      Server.get?_of_mem_recordings he
    exact hg

theorem bindShape_serverBound (config : Config) (hi : Intact owner s)
    (ho : Server.obstacles store .root s = [])
    (hr : .reference ∉ (serverBound owner s).nodes.map Shape.kind) :
    (bindShape config store (serverBound owner s)).Returns
      (owner.install (serverMapping store owner s)) ⟨serverBound owner s, .server⟩
      (owner.install (serverMapping store owner s)) := by
  have hi' := intact_serverBound hi ho hr
  have hs : serverBound (owner.install (serverMapping store owner s)) (serverBound owner s) =
      serverBound owner s := Server.addressed_addressed owner.id s .root
  have hb : (bindShape config store (serverBound owner s)).Returns _ _ _ :=
    bindShape_server hi' (Server.obstacles_serverBound ho)
  rw [hs, serverMapping_serverBound hi ho hi'] at hb
  exact hb

end server

/-- Why a node of a shape that was bound on the client cannot be bound once more. -/
def leftover? : Shape → Option Error
  | .entity type _ => some (.invalidBuffer (.expectedAddress type))
  | .reference _ => some (.alreadyBound .reference)
  | .lookup _ => some (.alreadyBound .lookup)
  | .construct .. | .memberInit .. | .attach .. | .parameter _ | .group _ | .constant ..
  | .column .. | .binary .. | .call .. => none

section client

variable {store : Store} {behind? behind?' : Reference → Option Fragment}
  {refer refer' : Fragment → DataType → Reference}

theorem replace_of_none {s : Shape} (h : store s = none) (r : Shape) :
    Client.replace store refer s r = r := by
  rw [Client.replace, h]

theorem of_leftover?_replace {s r : Shape}
    (h : ∀ n ∈ (Client.replace store refer s r).nodes, leftover? n = none) :
    store s = none ∧ ∀ n ∈ r.nodes, leftover? n = none := by
  cases hs : store s with
  | none => exact ⟨rfl, by rwa [replace_of_none hs] at h⟩
  | some f =>
    rw [Client.replace, hs] at h
    cases h _ (Shape.self_mem_nodes _)

-- A second pass may find other fragments at other places: where the first one left nothing that was
-- bound, there is nothing for it to bind either.
mutual
theorem residue_eq_self : ∀ s : Shape,
    (∀ n ∈ (Client.residue store behind? refer s).nodes, leftover? n = none) →
    Client.residue store behind?' refer' s = s
  | .construct _ args, h => by
    rw [Client.residue, residueArgs_eq_self args (List.forall_mem_cons.mp h).2]
  | .memberInit _ args assignments, h => by
    obtain ⟨ha, hf⟩ := List.forall_mem_append.mp (List.forall_mem_cons.mp h).2
    rw [Client.residue, residueArgs_eq_self args ha, residueFields_eq_self assignments hf]
  | .entity type buffer, h => by
    have hl := h _ (Shape.self_mem_nodes _)
    cases hb : behind? buffer <;> simp [Client.residue, hb, leftover?] at hl
  | .attach e _ value, h => by
    obtain ⟨he, hv⟩ := List.forall_mem_append.mp (List.forall_mem_cons.mp h).2
    rw [Client.residue, residue_eq_self e he, residue_eq_self value hv]
  | .parameter p, h => by
    by_cases hp : p.type.isEnumerable
    · simp only [Client.residue, hp, if_true]
    · simp only [Client.residue, hp] at h
      cases (of_leftover?_replace h).2 _ (Shape.self_mem_nodes _)
  | .constant .., h | .column .., h => replace_of_none (of_leftover?_replace h).1 _
  | .binary left _ right _, h => by
    obtain ⟨hs, h⟩ := of_leftover?_replace h
    obtain ⟨hl, hr⟩ := List.forall_mem_append.mp (List.forall_mem_cons.mp h).2
    rw [Client.residue, replace_of_none hs, residue_eq_self left hl, residue_eq_self right hr]
  | .call _ args _, h => by
    obtain ⟨hs, h⟩ := of_leftover?_replace h
    rw [Client.residue, replace_of_none hs, residueAll_eq_self args (List.forall_mem_cons.mp h).2]
  | .group _, _ | .reference _, _ | .lookup _, _ => rfl
theorem residueArgs_eq_self : ∀ args : Args Shape,
    (∀ n ∈ Shape.nodesArgs (Client.residueArgs store behind? refer args), leftover? n = none) →
    Client.residueArgs store behind?' refer' args = args
  | .positional values, h => congrArg Args.positional (residueAll_eq_self values h)
  | .named fs, h => congrArg Args.named (residueFields_eq_self fs h)
theorem residueAll_eq_self : ∀ ss : List Shape,
    (∀ n ∈ Shape.nodesAll (Client.residueAll store behind? refer ss), leftover? n = none) →
    Client.residueAll store behind?' refer' ss = ss
  | [], _ => rfl
  | s :: rest, h => by
    obtain ⟨hs, hr⟩ := List.forall_mem_append.mp h
    rw [Client.residueAll, residue_eq_self s hs, residueAll_eq_self rest hr]
theorem residueFields_eq_self : ∀ fs : List (Member × Shape),
    (∀ n ∈ Shape.nodesFields (Client.residueFields store behind? refer fs), leftover? n = none) →
    Client.residueFields store behind?' refer' fs = fs
  | [], _ => rfl
  | (m, s) :: rest, h => by
    obtain ⟨hs, hr⟩ := List.forall_mem_append.mp h
    rw [Client.residueFields, residue_eq_self s hs, residueFields_eq_self rest hr]
end

variable {owner : Select} {s : Shape}

/-- The entities of a shape bound on the client read slots of the query itself. -/
theorem defect?_clientBound (hi : Intact owner s) {after : Select} (hid : after.id = owner.id)
    {n : Shape} (hn : n ∈ (clientBound store owner s).nodes) : defect? after n = leftover? n := by
  cases n with
  | entity type buffer =>
    obtain ⟨hq, i, ht, -⟩ := slot_of_mem_clientBound hi (Shape.buffer_mem_references hn)
    simp [defect?, leftover?, hq, ht, hid]
  | _ => rfl

theorem firstDefect_clientBound (hi : Intact owner s) {after : Select} (hid : after.id = owner.id) :
    (clientBound store owner s).nodes.findSome? (defect? after) =
      (clientBound store owner s).nodes.findSome? leftover? :=
  findSome?_congr fun _ hn => defect?_clientBound hi hid hn

/-- A shape without leftovers has no references, so that nothing was demanded. -/
theorem demands_eq_nil (hi : Intact owner s)
    (hl : ∀ n ∈ (clientBound store owner s).nodes, leftover? n = none) :
    Client.demands store owner.behind? s = [] := by
  have hr : (clientBound store owner s).references = [] := by
    rw [Shape.references_eq, List.filterMap_eq_nil_iff]
    intro n hn
    have hn := hl n hn
    cases n with
    | entity type buffer => cases hn
    | reference r => cases hn
    | _ => rfl
  rw [references_clientBound store hi] at hr
  exact List.map_eq_nil_iff.mp hr

theorem bindShape_clientBound (config : Config) (hi : Intact owner s) {o : Kind × Address}
    (ho : (Server.obstacles store .root s).head? = some o) (hp : config.policy ≠ .forbid)
    (hl : ∀ n ∈ (clientBound store owner s).nodes, leftover? n = none) :
    clientBound store owner s = s ∧
      (bindShape config store s).Returns ((projected store owner s).install ∅) ⟨s, .client⟩
        ((projected store owner s).install ∅) := by
  have hs : clientBound store owner s = s := residue_eq_self s hl
  refine ⟨hs, ?_⟩
  set after := (projected store owner s).install ∅
  have hid : after.id = owner.id := Select.id_addAll owner _
  have hs' : clientBound store after s = s := residue_eq_self s hl
  have hi' : Intact after s := fun n hn => by
    rw [← hs] at hn
    rw [defect?_clientBound hi hid hn, hl n hn]
  have hd : Client.demands store after.behind? s = [] := by
    apply demands_eq_nil hi'
    rwa [hs', ← hs]
  have hb : (bindShape config store s).Returns after _ _ := bindShape_client hi' ho hp
  rw [hs', projected, hd] at hb
  exact hb

end client

/-- Against the select that its bind left, a bound shape is bound to itself and changes nothing, or it
is refused for the first of its nodes that cannot be bound. -/
theorem bindShape_bound (config : Config) (store : Store) (s : Shape) (owner : Select)
    {bound : Bound} (h : (bindShape config store s owner).1.result = .ok bound) :
    let after := (bindShape config store s owner).2
    let again := bindShape config store bound.shape after
    (bound.mode = .server →
      (.reference ∈ bound.shape.nodes.map Shape.kind →
        again.1.result = .error (.alreadyBound .reference) ∧ again.2 = after) ∧
      (.reference ∉ bound.shape.nodes.map Shape.kind →
        again.1.result = .ok bound ∧ again.2 = after)) ∧
    (bound.mode = .client →
      (∀ e, bound.shape.nodes.findSome? leftover? = some e →
        again.1.result = .error e ∧ again.2 = after) ∧
      (bound.shape.nodes.findSome? leftover? = none →
        bound.shape = s ∧ again.1.result = .ok bound ∧ again.2 = after)) := by
  obtain ⟨b, mode⟩ := bound
  constructor
  · rintro rfl
    obtain ⟨hi, ho, rfl, ha⟩ := eq_of_bindShape_server h
    rw [ha]
    refine ⟨fun hr => ?_, fun hr => ?_⟩
    · rw [bindShape_of_defect config store (firstDefect_serverBound hi ho hr)]
      exact ⟨rfl, rfl⟩
    · obtain ⟨steps, hs⟩ := bindShape_serverBound config hi ho hr
      rw [hs]
      exact ⟨rfl, rfl⟩
  · rintro rfl
    obtain ⟨hi, rfl, ha⟩ := eq_of_bindShape_client h
    obtain ⟨hp, o, ho⟩ := obstacle_of_bindShape_client h
    rw [ha]
    refine ⟨fun e he => ?_, fun hn => ?_⟩
    · have hid : ((projected store owner s).install ∅).id = owner.id := Select.id_addAll owner _
      rw [bindShape_of_defect config store ((firstDefect_clientBound hi hid).trans he)]
      exact ⟨rfl, rfl⟩
    · have hl := List.findSome?_eq_none_iff.mp hn
      obtain ⟨hs, steps, hb⟩ := bindShape_clientBound config hi ho hp hl
      rw [hs, hb]
      exact ⟨rfl, rfl, rfl⟩

/-- A customer and nothing else. -/
def plainCustomer : Shape :=
  .construct "View" (.named [(⟨"View", "Customer"⟩, .entity "Customer" (customers.buffer .root))])

/-- A value that needs no row. -/
def localTime : Shape := .call "Now" [] .timestamp

theorem bindShape_bound_plainCustomer :
    (let after := (bindShape {} standardStore plainCustomer customers).2
      ∃ b, (bindShape {} standardStore plainCustomer customers).1.result = .ok ⟨b, .server⟩ ∧
        (bindShape {} standardStore b after).1.result = .ok ⟨b, .server⟩ ∧
        (bindShape {} standardStore b after).2 = after) ∧
    (let after := (bindShape {} standardStore (customerView localName) customers).2
      ∃ b, (bindShape {} standardStore (customerView localName) customers).1.result =
          .ok ⟨b, .client⟩ ∧
        (bindShape {} standardStore b after).1.result = .error (.alreadyBound .reference) ∧
        (bindShape {} standardStore b after).2 = after) ∧
    (let after := (bindShape {} standardStore localTime customers).2
      ∃ b, (bindShape {} standardStore localTime customers).1.result = .ok ⟨b, .client⟩ ∧
        b = localTime ∧ (bindShape {} standardStore b after).1.result = .ok ⟨b, .client⟩ ∧
        (bindShape {} standardStore b after).2 = after) := by
  have hp := bindShape_bound {} standardStore plainCustomer customers rfl
  have hv := bindShape_bound {} standardStore (customerView localName) customers rfl
  have ht := bindShape_bound {} standardStore localTime customers rfl
  exact ⟨⟨_, rfl, (hp.1 rfl).2 (by decide)⟩, ⟨_, rfl, (hv.2 rfl).1 _ (by decide)⟩,
    ⟨_, rfl, (ht.2 rfl).2 (by decide)⟩⟩

end QueryShaping.Binding
