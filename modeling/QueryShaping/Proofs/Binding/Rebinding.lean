import QueryShaping.Proofs.Binding.BoundNodes
import QueryShaping.Proofs.Binding.Locality

/-!
Binding a shape for the second time. Binding on the server moves what entities are read from to
where they stand. Main statement: a shape is bound anew exactly if all its sources are still mapped,
and then to the same mapping exactly if they are mapped as before (`bindShape_again`). Binding on the
client leaves nothing mapped, so that only a shape without entities is bound anew, and then without
any change (`bindShape_client_again`).
-/

namespace QueryShaping.Binding

section defects

variable {owner after : Select}

theorem defect?_again (hid : after.id = owner.id) {n : Shape} (h : defect? owner n = none) :
    defect? after n =
      n.source?.bind fun a => if after.mapping.contains a then none else some (.unmapped a) := by
  cases n with
  | entity type buffer =>
    obtain ⟨query, target, bufferType⟩ := buffer
    by_cases hq : query = owner.id
    · cases target with
      | slot i => simp [defect?, hq] at h
      | address a => simp [defect?, Shape.source?, Shape.reference?, Reference.address?, hq, hid]
    · simp [defect?, hq] at h
  | reference r => simp [defect?] at h
  | lookup p => simp [defect?] at h
  | _ => rfl

theorem findSome?_defect? (hid : after.id = owner.id) {ns : List Shape}
    (hi : ∀ n ∈ ns, defect? owner n = none) :
    ns.findSome? (defect? after) =
      ((ns.filterMap Shape.source?).find? fun a => !after.mapping.contains a).map .unmapped := by
  induction ns with
  | nil => rfl
  | cons n ns ih =>
    obtain ⟨hn, hns⟩ := List.forall_mem_cons.mp hi
    rw [List.findSome?_cons, defect?_again hid hn, ih hns]
    cases hs : n.source? with
    | none => rw [List.filterMap_cons_none hs, Option.bind_none]
    | some a =>
      rw [List.filterMap_cons_some hs, List.find?_cons, Option.bind_some]
      cases after.mapping.contains a <;> rfl

/-- Of a shape that was bound against a select of the query before, only the sources can be at
fault. -/
theorem firstDefect_again (hid : after.id = owner.id) {s : Shape} (hi : Intact owner s) :
    s.nodes.findSome? (defect? after) =
      (s.sources.find? fun a => !after.mapping.contains a).map .unmapped := by
  rw [Shape.sources_eq, findSome?_defect? hid hi]

theorem intact_again (hid : after.id = owner.id) {s : Shape} (hi : Intact owner s)
    (hs : ∀ a ∈ s.sources, after.mapping.contains a = true) : Intact after s := by
  have hf : (s.sources.find? fun a => !after.mapping.contains a) = none :=
    List.find?_eq_none.mpr fun a ha => by simp [hs a ha]
  rw [Intact, ← List.findSome?_eq_none_iff, firstDefect_again hid hi, hf, Option.map_none]

end defects

namespace Server

/-- A fragment is recorded for the node. -/
def isLeaf : Shape → Bool
  | .entity .. => true
  | s => s.isScalar

/-- The leaf that counts at each address: the last one that stands there. -/
def leaves (s : Shape) : OrderedMap Address Shape :=
  .ofList ((visited .root s).filter fun p => isLeaf p.2)

variable {store : Store} {owner : Select} {s : Shape}

theorem leaf_cases {n : Shape} (h : isLeaf n) :
    (∃ type buffer, n = .entity type buffer) ∨ n.isScalar := by
  cases n <;> simp_all [isLeaf]

theorem fragment?_ne_none {n : Shape} (hi : defect? owner n = none) (ho : obstacle? store n = none)
    (hl : isLeaf n) : fragment? store owner.behind? n ≠ none := by
  rcases leaf_cases hl with ⟨type, buffer, rfl⟩ | hs
  · have hi' : Intact owner (.entity type buffer) := fun n hn => by
      rwa [List.mem_singleton.mp hn]
    obtain ⟨a, f, -, -, hb⟩ := exists_behind?_of_intact hi'
    simp [fragment?, hb]
  · rw [obstacle?_of_isScalar hs] at ho
    rw [fragment?_of_isScalar hs]
    intro hn
    simp [hn] at ho

theorem asRecording?_eq_none {behind? : Reference → Option Fragment} {p : Address × Shape}
    (h : isLeaf p.2 = false) : asRecording? store behind? p = none := by
  obtain ⟨path, n⟩ := p
  cases n <;> simp_all [isLeaf, asRecording?, fragment?]

theorem serverMapping_eq (store : Store) (owner : Select) (s : Shape) :
    serverMapping store owner s = .ofList (((visited .root s).filter fun p => isLeaf p.2).filterMap
      (asRecording? store owner.behind?)) := by
  rw [serverMapping, recordings_eq, List.filterMap_filter]
  congr 2
  funext p
  cases h : isLeaf p.2
  · simp [asRecording?_eq_none h]
  · simp

theorem fragment?_ne_none_of_mem (hi : Intact owner s) (ho : obstacles store .root s = []) :
    ∀ p ∈ (visited .root s).filter fun p => isLeaf p.2,
      fragment? store owner.behind? p.2 ≠ none := by
  intro p hp
  obtain ⟨hp, hl⟩ := List.mem_filter.mp hp
  exact fragment?_ne_none (hi p.2 (nodes_of_visited s .root hp))
    (obstacles_eq_nil_iff.mp ho p hp) hl

theorem get?_serverMapping (hi : Intact owner s) (ho : obstacles store .root s = []) (a : Address) :
    (serverMapping store owner s).get? a =
      ((leaves s).get? a).bind (fragment? store owner.behind?) := by
  rw [serverMapping_eq]
  exact OrderedMap.get?_ofList_filterMap (fragment?_ne_none_of_mem hi ho) a

theorem keys_serverMapping (hi : Intact owner s) (ho : obstacles store .root s = []) :
    (serverMapping store owner s).keys = (leaves s).keys := by
  rw [serverMapping_eq]
  exact OrderedMap.keys_ofList_filterMap (fragment?_ne_none_of_mem hi ho)

variable {after : Select}

/-- What a scalar leaves in the mapping does not depend on the mapping before. -/
theorem fragment?_eq_of_behind? {n : Shape}
    (h : ∀ type buffer, n = .entity type buffer → after.behind? buffer = owner.behind? buffer) :
    fragment? store after.behind? n = fragment? store owner.behind? n := by
  cases n with
  | entity type buffer => exact h type buffer rfl
  | _ => rfl

theorem get?_serverMapping_eq_iff (hi : Intact owner s) (hi' : Intact after s)
    (ho : obstacles store .root s = []) :
    (∀ a, (serverMapping store after s).get? a = (serverMapping store owner s).get? a) ↔
      ∀ a type buffer, (leaves s).get? a = some (.entity type buffer) →
        after.behind? buffer = owner.behind? buffer := by
  simp only [get?_serverMapping hi ho, get?_serverMapping hi' ho]
  constructor
  · intro h a type buffer hl
    have ha := h a
    rwa [hl, Option.bind_some, Option.bind_some] at ha
  · intro h a
    cases hl : (leaves s).get? a with
    | none => rfl
    | some n =>
      rw [Option.bind_some, Option.bind_some]
      exact fragment?_eq_of_behind? fun type buffer hn => h a type buffer (hn ▸ hl)

end Server

/-- A shape that was bound on the server is bound alike once more if what it reads is still mapped.
The second mapping is the first one exactly if every entity that counts at its address has the same
fragment behind it as before. -/
theorem bindShape_again (config : Config) (store : Store) (s : Shape) (owner : Select)
    {b : Shape}
    (h : (bindShape config store s owner).1.result = .ok ⟨b, .server⟩) :
    let after := (bindShape config store s owner).2
    let again := bindShape config store s after
    (∀ a, (s.sources.find? fun a => !after.mapping.contains a) = some a →
      again.1.result = .error (.unmapped a) ∧ again.2 = after) ∧
    ((∀ a ∈ s.sources, after.mapping.contains a) →
      again.1.result = .ok ⟨b, .server⟩ ∧
      (again.2.mapping.same after.mapping ↔
        ∀ a type buffer, (Server.leaves s).get? a = some (.entity type buffer) →
          after.behind? buffer = owner.behind? buffer) ∧
      (again.2.mapping.same after.mapping → again.2 = after)) := by
  obtain ⟨hi, ho, rfl, ha⟩ := eq_of_bindShape_server h
  have hid : (owner.install (serverMapping store owner s)).id = owner.id := rfl
  rw [ha]
  constructor
  · intro a hf
    have hd := firstDefect_again hid hi
    rw [hf, Option.map_some] at hd
    rw [bindShape_of_defect config store hd]
    exact ⟨rfl, rfl⟩
  · intro hs
    have hi' := intact_again hid hi hs
    have hr : (bindShape config store s).Returns _ _ _ := bindShape_server hi' ho
    obtain ⟨steps, hr⟩ := hr
    rw [hr]
    refine ⟨rfl, ?_, fun hsame => ?_⟩
    · rw [← Server.get?_serverMapping_eq_iff hi hi' ho]
      exact OrderedMap.same_iff
    · -- both mappings have the order of the leaves, so that equal look-ups make them equal
      have hm : serverMapping store (owner.install (serverMapping store owner s)) s =
          serverMapping store owner s := by
        apply OrderedMap.ext_get?
        · rw [Server.keys_serverMapping hi ho, Server.keys_serverMapping hi' ho]
        · exact OrderedMap.same_iff.mp hsame
      rw [hm]
      rfl

/-- A customer with a label. -/
def labelledCustomer (source : Address) : Shape :=
  .construct "View"
    (.named [(⟨"View", "Customer"⟩, .entity "Customer" (customers.buffer source)),
      (⟨"View", "Label"⟩, upperName)])

/-- Customers that are also mapped where a view has them. -/
def viewedCustomers : Select :=
  customers.mapAddress [⟨"View", "Customer"⟩]
    (.entity ⟨"Customer", "c", [("Id", .int64), ("Name", .string)]⟩)

theorem bindShape_again_labelledCustomer :
    (let s := labelledCustomer [⟨"View", "Customer"⟩]
      let after := (bindShape {} standardStore s viewedCustomers).2
      ∃ b, (bindShape {} standardStore s viewedCustomers).1.result = .ok ⟨b, .server⟩ ∧
        (bindShape {} standardStore s after).1.result = .ok ⟨b, .server⟩ ∧
        (bindShape {} standardStore s after).2 = after) ∧
    (let s := labelledCustomer .root
      let after := (bindShape {} standardStore s viewedCustomers).2
      (∃ b, (bindShape {} standardStore s viewedCustomers).1.result = .ok ⟨b, .server⟩) ∧
        (bindShape {} standardStore s after).1.result = .error (.unmapped .root) ∧
        (bindShape {} standardStore s after).2 = after) := by
  constructor
  · obtain ⟨-, hs⟩ := bindShape_again {} standardStore (labelledCustomer [⟨"View", "Customer"⟩])
      viewedCustomers rfl
    obtain ⟨hr, -, hsame⟩ := hs (by decide)
    exact ⟨_, rfl, hr, hsame (by decide)⟩
  · obtain ⟨hf, -⟩ := bindShape_again {} standardStore (labelledCustomer .root) viewedCustomers rfl
    exact ⟨⟨_, rfl⟩, hf .root (by decide)⟩

/-- Two neighbours, each of which is read from the place of the other. -/
def crossed : Shape :=
  .construct "Pair"
    (.named [(⟨"Pair", "Left"⟩, .entity "Order" ⟨⟨1⟩, .address [⟨"Pair", "Right"⟩], .valueBuffer⟩),
      (⟨"Pair", "Right"⟩, .entity "Order" ⟨⟨1⟩, .address [⟨"Pair", "Left"⟩], .valueBuffer⟩)])

def neighbours : Select :=
  let left := (Select.empty ⟨1⟩).mapAddress [⟨"Pair", "Left"⟩]
    (.entity ⟨"Order", "a", [("Id", .int64)]⟩)
  left.mapAddress [⟨"Pair", "Right"⟩] (.entity ⟨"Order", "b", [("Id", .int64)]⟩)

/-- An entity that stands elsewhere than it is read from is not found again, and neighbours that are
read from one another change places with every bind. -/
theorem not_bound_alike_again :
    (let s := labelledCustomer .root
      let after := (bindShape {} standardStore s customers).2
      (∃ b, (bindShape {} standardStore s customers).1.result = .ok ⟨b, .server⟩) ∧
        (bindShape {} standardStore s after).1.result = .error (.unmapped .root)) ∧
    (let after := (bindShape {} standardStore crossed neighbours).2
      ∃ b, (bindShape {} standardStore crossed neighbours).1.result = .ok ⟨b, .server⟩ ∧
        (bindShape {} standardStore crossed after).1.result = .ok ⟨b, .server⟩ ∧
        (bindShape {} standardStore crossed after).2.mapping.same after.mapping = false) :=
  ⟨⟨⟨_, rfl⟩, rfl⟩, _, rfl, rfl, by decide⟩

section client

variable {store : Store} {s : Shape} {owner after : Select}

namespace Client

variable {behind? behind?' : Reference → Option Fragment}

/-- Nothing but entities is told from the mapping. The relabelling is the one that changes nothing:
one shape is bound against two mappings. -/
theorem sameAnswers_of_buffers (h : ∀ n ∈ s.nodes, n.buffer? = none) :
    ∀ n ∈ s.nodes, SameAnswers { query := id } store behind? behind?' n := by
  intro n hn
  constructor
  · intro _
    rw [Shape.relabel_query_eq_self id n fun _ _ => rfl]
  · intro r hr
    rw [h n hn] at hr
    cases hr

theorem demands_eq_of_buffers (h : ∀ n ∈ s.nodes, n.buffer? = none) :
    demands store behind?' s = demands store behind? s := by
  have hd := demands_relabel s (@sameAnswers_of_buffers store s behind? behind?' h)
  rwa [Shape.relabel_query_eq_self id s fun _ _ => rfl] at hd

theorem residue_eq_of_buffers (h : ∀ n ∈ s.nodes, n.buffer? = none)
    (refer : Fragment → DataType → Reference) :
    residue store behind?' refer s = residue store behind? refer s := by
  have hg : Blurs { query := id } { query := id } refer refer := ⟨rfl, fun _ _ => rfl⟩
  have hr := residue_relabel hg s (@sameAnswers_of_buffers store s behind? behind?' h)
  have hid : ∀ t : Shape, t.relabel { query := id } = t := fun t =>
    Shape.relabel_query_eq_self id t fun _ _ => rfl
  rwa [hid, hid, hid] at hr

end Client

/-- The projection has all that the shape demands. -/
theorem projected_again (h : ∀ n ∈ s.nodes, n.buffer? = none) :
    projected store ((projected store owner s).install ∅) s = (projected store owner s).install ∅ := by
  rw [projected, Client.demands_eq_of_buffers h]
  exact Select.addAll_eq_self fun slot hs => Select.mem_fragments_addAll owner hs

theorem clientBound_again (h : ∀ n ∈ s.nodes, n.buffer? = none) :
    clientBound store ((projected store owner s).install ∅) s = clientBound store owner s := by
  rw [clientBound, projected_again h]
  exact Client.residue_eq_of_buffers h _

/-- A node without defects reads an address only to be materialised. -/
theorem source?_eq {n : Shape} (h : defect? owner n = none) :
    n.source? = n.buffer?.bind Reference.address? := by
  cases n with
  | reference r => simp [defect?] at h
  | _ => rfl

theorem intact_again_of_buffers (hid : after.id = owner.id) (hi : Intact owner s)
    (h : ∀ n ∈ s.nodes, n.buffer? = none) : Intact after s := by
  have hs : s.sources = [] := by
    rw [Shape.sources_eq, List.filterMap_eq_nil_iff]
    intro n hn
    rw [source?_eq (hi n hn), h n hn, Option.bind_none]
  apply intact_again hid hi
  rw [hs]
  exact List.forall_mem_nil _

theorem exists_address_of_buffer {n : Shape} (h : defect? owner n = none) {buffer : Reference}
    (hb : n.buffer? = some buffer) : ∃ a, buffer.target = .address a := by
  cases n with
  | entity type r =>
    obtain rfl : r = buffer := Option.some.inj hb
    have hi : Intact owner (.entity type r) := List.forall_mem_singleton.mpr h
    obtain ⟨a, f, ha, -⟩ := exists_behind?_of_intact hi
    exact ⟨a, ha⟩
  | _ => cases hb

/-- Where nothing is mapped, the first entity is the first defect. -/
theorem firstDefect_of_buffer (hid : after.id = owner.id) (hm : after.mapping = ∅)
    (hi : Intact owner s) {buffer : Reference}
    (hb : s.nodes.findSome? Shape.buffer? = some buffer) :
    ∃ a, buffer.target = .address a ∧ s.nodes.findSome? (defect? after) = some (.unmapped a) := by
  obtain ⟨before, n, rest, hs, hn, hbefore⟩ := List.findSome?_eq_some_iff.mp hb
  have hi : ∀ m ∈ before ++ n :: rest, defect? owner m = none := hs ▸ hi
  obtain ⟨a, ha⟩ := exists_address_of_buffer (hi n (by simp)) hn
  -- Nothing is mapped, so that an entity is a defect wherever it is read from.
  have hdefect : ∀ m ∈ before ++ n :: rest,
      defect? after m = (m.buffer?.bind Reference.address?).map .unmapped := by
    intro m hmem
    rw [defect?_again hid (hi m hmem), source?_eq (hi m hmem), hm, Option.map_eq_bind]
    rfl
  refine ⟨a, ha, List.findSome?_eq_some_iff.mpr ⟨before, n, rest, hs, ?_, fun m hmem => ?_⟩⟩
  · rw [hdefect n (by simp), hn, Option.bind_some, Reference.address?, ha, Option.map_some]
  · rw [hdefect m (List.mem_append_left _ hmem), hbefore m hmem, Option.bind_none, Option.map_none]

end client

/-- Nothing stays mapped by a bind on the client. A shape without entities is bound to the same
slots once more, and the select stays as it is. Any other shape is refused for its first entity. -/
theorem bindShape_client_again (config : Config) (store : Store) (s : Shape) (owner : Select)
    {b : Shape}
    (h : (bindShape config store s owner).1.result = .ok ⟨b, .client⟩) :
    let after := (bindShape config store s owner).2
    let again := bindShape config store s after
    (s.nodes.findSome? Shape.buffer? = none → again.1.result = .ok ⟨b, .client⟩) ∧
    (∀ buffer, s.nodes.findSome? Shape.buffer? = some buffer →
      ∃ a, buffer.target = .address a ∧ again.1.result = .error (.unmapped a)) ∧
    again.2 = after := by
  obtain ⟨hp, o, ho⟩ := obstacle_of_bindShape_client h
  obtain ⟨hi, rfl, ha⟩ := eq_of_bindShape_client h
  have hid : ((projected store owner s).install ∅).id = owner.id := Select.id_addAll owner _
  rw [ha]
  cases hb : s.nodes.findSome? Shape.buffer? with
  | none =>
    have hn : ∀ n ∈ s.nodes, n.buffer? = none := List.findSome?_eq_none_iff.mp hb
    obtain ⟨steps, hr⟩ : (bindShape config store s).Returns _ _ _ :=
      bindShape_client (intact_again_of_buffers hid hi hn) ho hp
    rw [clientBound_again hn, projected_again hn] at hr
    simp only [hr]
    exact ⟨fun _ => trivial, by simp, rfl⟩
  | some buffer =>
    obtain ⟨a, ht, hd⟩ := firstDefect_of_buffer hid rfl hi hb
    simp only [bindShape_of_defect config store hd]
    refine ⟨by simp, ?_, trivial⟩
    rintro buffer ⟨⟩
    exact ⟨a, ht, rfl⟩

/-- A label with the name that it is made from, and a key that the select projects already. -/
def labelledKey : Shape :=
  .construct "Key"
    (.named [(⟨"Key", "Label"⟩, localName), (⟨"Key", "Name"⟩, .column "c" "Name" .string),
      (⟨"Key", "Id"⟩, .column "c" "Id" .int64)])

theorem bindShape_client_again_labelledKey :
    (let after := (bindShape {} standardStore labelledKey customers).2
      ∃ b, (bindShape {} standardStore labelledKey customers).1.result = .ok ⟨b, .client⟩ ∧
        b.references.map Reference.slot? = [some 1, some 1, some 0] ∧
        (bindShape {} standardStore labelledKey after).1.result = .ok ⟨b, .client⟩ ∧
        (bindShape {} standardStore labelledKey after).2 = after) ∧
    (let s := customerView localName
      let after := (bindShape {} standardStore s customers).2
      (∃ b, (bindShape {} standardStore s customers).1.result = .ok ⟨b, .client⟩) ∧
        (bindShape {} standardStore s after).1.result = .error (.unmapped .root) ∧
        (bindShape {} standardStore s after).2 = after) := by
  constructor
  · obtain ⟨hr, -, ha⟩ := bindShape_client_again {} standardStore labelledKey customers rfl
    exact ⟨_, rfl, by decide, hr rfl, ha⟩
  · obtain ⟨-, hr, ha⟩ :=
      bindShape_client_again {} standardStore (customerView localName) customers rfl
    obtain ⟨a, ht, hr⟩ := hr _ rfl
    cases ht
    exact ⟨⟨_, rfl⟩, hr, ha⟩

end QueryShaping.Binding
