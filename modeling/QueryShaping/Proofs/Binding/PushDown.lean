import QueryShaping.Proofs.Binding.BoundNodes
import QueryShaping.Proofs.Binding.Projection
import QueryShaping.Proofs.Store.Evaluation

/-!
What is left to a store of functions. Main statements: a bound shape has no node that the store
evaluates, and on the client its references read the fragments of the largest parts that the store
evaluates (`bindShape_exhausts`). Two of these parts share a slot exactly if they differ only in the
case of functions (`fragment?_exact`), and the slots are of the types that the parts are of
(`fragment?_types`).
-/

namespace QueryShaping

theorem DataType.isStore_of_isEnumerable {type : DataType} (h : type.isEnumerable) :
    type.isStore = false := by
  cases type with
  | enumerable element => rfl
  | _ => cases h

namespace StoreFunctions

variable {functions : StoreFunctions}

def evaluates (functions : StoreFunctions) (s : Shape) : Bool := (functions.fragment? s).isSome

open Binding

theorem accepts_fragment? : Client.accepts functions.fragment? = functions.evaluates := by
  funext s
  cases s with
  | parameter p =>
    by_cases hp : p.type.isEnumerable
    · simp [Client.accepts, evaluates, fragment?, Shape.isScalar, hp,
        DataType.isStore_of_isEnumerable hp]
    · simp [Client.accepts, evaluates, Shape.isScalar, hp]
  | _ => rfl

section exhausted

theorem fragment?_enumerable {p : Parameter} (h : p.type.isEnumerable) :
    functions.fragment? (.parameter p) = none := by
  rw [fragment?, DataType.isStore_of_isEnumerable h]
  rfl

theorem fragment?_addressed (query : QueryId) (path : Address) (n : Shape) :
    functions.fragment? (Server.addressed query path n) = none := by
  cases n with
  | parameter p =>
    by_cases hp : p.type.isEnumerable
    · simpa [Server.addressed, hp] using fragment?_enumerable hp
    · simp [Server.addressed, hp, fragment?]
  | _ => rfl

variable {behind? : Reference → Option Fragment} {refer : Fragment → DataType → Reference}

theorem fragment?_replace {s rest : Shape}
    (h : functions.fragment? s = none → functions.fragment? rest = none) :
    functions.fragment? (Client.replace functions.fragment? refer s rest) = none := by
  unfold Client.replace
  split
  · rfl
  · next hs => exact h hs

/-- What was rejected stays rejected: an operation or a call is rebuilt around operands that are
rejected themselves. -/
theorem fragment?_residue (s : Shape) :
    functions.fragment? (Client.residue functions.fragment? behind? refer s) = none := by
  induction s using Shape.children_induction with
  | node s ih =>
    cases s with
    | construct | memberInit | attach | group | reference | lookup => rfl
    | entity type buffer =>
      rw [Client.residue]
      cases behind? buffer <;> rfl
    | parameter p =>
      by_cases hp : p.type.isEnumerable
      · simpa [Client.residue, hp] using fragment?_enumerable hp
      · simpa [Client.residue, hp] using fragment?_replace fun _ => rfl
    | constant | column => exact fragment?_replace id
    | binary left op right type =>
      refine fragment?_replace fun _ => ?_
      have hl := ih left List.mem_cons_self
      rw [fragment?, hl]
      rfl
    | call function args type =>
      refine fragment?_replace fun h => ?_
      cases args with
      | nil => exact h
      | cons a rest =>
        have ha := ih a List.mem_cons_self
        simp [fragment?, Client.residueAll, fragments?, ha]

end exhausted

section bound

variable {config : Config} {s : Shape} {owner : Select} {b : Shape}

theorem fragment?_bound {mode : Mode}
    (h : (bindShape config functions.fragment? s owner).1.result = .ok ⟨b, mode⟩) :
    ∀ n ∈ b.nodes, functions.fragment? n = none := by
  intro n hn
  cases mode with
  | server =>
    obtain ⟨-, ho, rfl, -⟩ := eq_of_bindShape_server h
    rw [serverBound, Server.nodes_addressed owner.id s .root ho] at hn
    obtain ⟨p, -, rfl⟩ := List.mem_map.mp hn
    exact fragment?_addressed owner.id p.1 p.2
  | client =>
    obtain ⟨-, rfl, -⟩ := eq_of_bindShape_client h
    rw [clientBound, Client.nodes_residue] at hn
    obtain ⟨m, -, rfl⟩ := List.mem_map.mp hn
    exact fragment?_residue m

/-- Each of the largest parts that the store evaluates has one reference, in order, and the
reference reads its fragment. -/
theorem bindings_clientBound (hi : Intact owner s) :
    let after := (projected functions.fragment? owner s).install ∅
    List.Forall₂
      (fun r n => ∃ f, functions.fragment? n = some f ∧ after.read? r = some f ∧
        after.slot? r = some (after.position f))
      (clientBound functions.fragment? owner s).bindings (s.outermost functions.evaluates) := by
  have hr : ∀ r, .reference r ∉ s.nodes := fun r hm => by simpa [defect?] using hi _ hm
  rw [← accepts_fragment?]
  refine (Client.bindings_residue hr).imp ?_
  rintro r n ⟨slot, hs, hf, rfl⟩
  exact ⟨slot.fragment, hf, read?_answer hs, slot?_answer hs⟩

end bound

/-- A bound shape has no node that the store evaluates. On the client its references in place of
scalars read the fragments of the largest parts that the store evaluates, in their order. -/
theorem bindShape_exhausts (functions : StoreFunctions) (config : Config) (s : Shape)
    (owner : Select) {b : Shape} {mode : Mode}
    (h : (bindShape config functions.fragment? s owner).1.result = .ok ⟨b, mode⟩) :
    let after := (bindShape config functions.fragment? s owner).2
    (∀ n ∈ b.nodes, functions.fragment? n = none) ∧
      (mode = .client → b.bindings.map after.read? =
        (s.outermost functions.evaluates).map functions.fragment?) := by
  refine ⟨fragment?_bound h, ?_⟩
  rintro rfl
  obtain ⟨hi, rfl, ha⟩ := eq_of_bindShape_client h
  rw [ha]
  refine map_eq_map_of_forall₂ (bindings_clientBound hi) ?_
  rintro r n ⟨f, hf, hread, -⟩
  rw [hread, hf]

theorem bindShape_exhausts_localName :
    ∃ b, (bindShape {} standardStore (customerView localName) customers).1.result =
        .ok ⟨b, .client⟩ ∧
      (∀ n ∈ b.nodes, standardStore n = none) ∧
      b.bindings.map (bindShape {} standardStore (customerView localName) customers).2.read? =
        [some (.column "c" "Id" .int64), some (.column "c" "Id" .int64),
          some (.column "c" "Name" .string)] := by
  obtain ⟨hn, hb⟩ := bindShape_exhausts standard {} (customerView localName) customers rfl
  exact ⟨_, rfl, hn, hb rfl⟩

/-- The store has fragments for what is evaluable and for nothing else. A fragment reads back as its
shape with the functions in upper case, so that two shapes have one fragment exactly if they differ
only in that case, and then only do they share a slot. -/
theorem fragment?_exact (functions : StoreFunctions) :
    (∀ e, (∃ g, functions.fragment? e = some g) ↔ functions.Evaluable e) ∧
    (∀ e g, functions.fragment? e = some g → g.scalar? = some e.upper ∧ g.type = e.type) ∧
    (∀ e e' g g', functions.fragment? e = some g → functions.fragment? e' = some g' →
      (g = g' ↔ e.upper = e'.upper)) ∧
    ∀ (config : Config) (s : Shape) (owner : Select) (b : Shape),
      (bindShape config functions.fragment? s owner).1.result = .ok ⟨b, .client⟩ →
      let after := (bindShape config functions.fragment? s owner).2
      let leaves := s.outermost functions.evaluates
      b.bindings.length = leaves.length ∧
        ∀ p ∈ b.bindings.zip leaves, ∀ q ∈ b.bindings.zip leaves,
          after.slot? p.1 = after.slot? q.1 ↔ p.2.upper = q.2.upper := by
  refine ⟨fun e => exists_fragment?_iff, fun e g h => ⟨scalar?_of_fragment? h, type_of_fragment? h⟩,
    fun e e' g g' h h' => fragment?_inj h h', fun config s owner b h => ?_⟩
  obtain ⟨hi, rfl, ha⟩ := eq_of_bindShape_client h
  rw [ha]
  obtain ⟨hlen, hzip⟩ := List.forall₂_iff_zip.mp (@bindings_clientBound functions _ _ hi)
  refine ⟨hlen, fun p hp q hq => ?_⟩
  obtain ⟨f, hf, hread, hs⟩ := hzip hp
  obtain ⟨f', hf', hread', hs'⟩ := hzip hq
  rw [← fragment?_inj hf hf']
  constructor
  · intro hslot
    rw [Select.read?, hslot, ← Select.read?, hread'] at hread
    exact (Option.some.inj hread).symm
  · rintro rfl
    rw [hs, hs']

def shoutedName : Shape := .call "UPPER" [.column "c" "Name" .string] .string

/-- A label in two spellings and the name that it is made of. -/
def spelledLabels : Shape :=
  .construct "Labels" (.positional [upperName, shoutedName, .column "c" "Name" .string])

theorem fragment?_exact_spelledLabels :
    let run := bindShape {} standardStore spelledLabels customers
    let leaves := spelledLabels.outermost standard.evaluates
    (∃ g g', standardStore upperName = some g ∧ standardStore shoutedName = some g' ∧ g = g' ∧
      g.scalar? = some upperName.upper ∧ g.type = .string) ∧
    ∃ b, run.1.result = .ok ⟨b, .client⟩ ∧ b.bindings.length = 3 ∧
      ∀ p ∈ b.bindings.zip leaves, ∀ q ∈ b.bindings.zip leaves,
        run.2.slot? p.1 = run.2.slot? q.1 ↔ p.2.upper = q.2.upper := by
  obtain ⟨-, hread, hinj, hbind⟩ := fragment?_exact standard
  obtain ⟨hlen, hzip⟩ := hbind {} spelledLabels customers _ rfl
  obtain ⟨hs, ht⟩ := hread upperName _ rfl
  have hg := (hinj upperName shoutedName _ _ rfl rfl).mpr (by decide)
  exact ⟨⟨_, _, rfl, rfl, hg, hs, ht⟩, _, rfl, hlen, hzip⟩

section types

theorem fragment?_eq_none {e : Shape} (hop : ¬ e.isOperation) (ht : ¬ e.type.isStore) :
    functions.fragment? e = none := by
  refine Option.eq_none_iff_forall_ne_some.mpr fun g hg => ?_
  obtain hs | ho := (Evaluable.of_fragment? hg).isStore_or e (Shape.self_mem_nodes e)
  · exact ht hs
  · exact hop ho

/-- A bind on the client adds slots for value buffers and for the largest parts that the store
evaluates, which are of the types of these parts. -/
theorem exists_added_clientBound (functions : StoreFunctions) (s : Shape) (owner : Select) :
    ∃ added,
      (projected functions.fragment? owner s).projection = owner.projection ++ added ∧
      ∀ slot ∈ added,
        (slot.fragment ∈ s.buffered owner.behind? ∧ slot.type = .valueBuffer) ∨
        ∃ n ∈ s.outermost functions.evaluates, functions.fragment? n = some slot.fragment ∧
          slot.type = n.type ∧ (n.isOperation ∨ slot.type.isStore) := by
  obtain ⟨added, hp, hm⟩ :=
    Select.exists_added owner (Client.demands functions.fragment? owner.behind? s)
  refine ⟨added, hp, fun slot hs => ?_⟩
  obtain hb | ⟨n, hn, hf, ht⟩ := Client.demand_cases (hm slot hs)
  · exact .inl hb
  · rw [accepts_fragment?] at hn
    have hor := (Evaluable.of_fragment? hf).isStore_or n (Shape.self_mem_nodes n)
    exact .inr ⟨n, hn, hf, ht, ht ▸ hor.symm⟩

end types

/-- A fragment has the types of its shape, node by node, and all of them are store types exactly if
the operations and calls of the shape declare store types. No other node of any other type has a
fragment. So the slots that a bind on the client adds are of store types, but for value buffers and
for operations and calls that declare other types. -/
theorem fragment?_types (functions : StoreFunctions) :
    (∀ e g, functions.fragment? e = some g →
      g.nodes.map Fragment.type = e.nodes.map Shape.type ∧
      ((∀ m ∈ g.nodes, m.type.isStore) ↔ ∀ n ∈ e.nodes, n.isOperation → n.type.isStore)) ∧
    (∀ e : Shape, ¬ e.isOperation → ¬ e.type.isStore → functions.fragment? e = none) ∧
    ∀ (config : Config) (s : Shape) (owner : Select) (b : Shape),
      (bindShape config functions.fragment? s owner).1.result = .ok ⟨b, .client⟩ →
      ∃ added,
        (bindShape config functions.fragment? s owner).2.projection = owner.projection ++ added ∧
        ∀ slot ∈ added,
          (slot.fragment ∈ s.buffered owner.behind? ∧ slot.type = .valueBuffer) ∨
          ∃ n ∈ s.outermost functions.evaluates, functions.fragment? n = some slot.fragment ∧
            slot.type = n.type ∧ (n.isOperation ∨ slot.type.isStore) := by
  refine ⟨fun e g h => ⟨types_of_fragment? h, nodes_isStore_iff h⟩,
    fun e hop ht => fragment?_eq_none hop ht, fun config s owner b h => ?_⟩
  obtain ⟨-, -, ha⟩ := eq_of_bindShape_client h
  rw [ha]
  exact exists_added_clientBound functions s owner

theorem fragment?_types_upperName :
    (∃ g, standardStore upperName = some g ∧ ∀ m ∈ g.nodes, m.type.isStore) ∧
    standardStore (.column "c" "Label" (.object "Label")) = none ∧
    ∃ added, (bindShape {} standardStore spelledLabels customers).2.projection =
        customers.projection ++ added ∧
      ∀ slot ∈ added, (slot.fragment ∈ spelledLabels.buffered customers.behind? ∧
          slot.type = .valueBuffer) ∨
        ∃ n ∈ spelledLabels.outermost standard.evaluates, standardStore n = some slot.fragment ∧
          slot.type = n.type ∧ (n.isOperation ∨ slot.type.isStore) := by
  obtain ⟨htypes, hnone, hbind⟩ := fragment?_types standard
  obtain ⟨-, hstore⟩ := htypes upperName _ rfl
  exact ⟨⟨_, rfl, hstore.mpr (by decide)⟩, hnone _ (by decide) (by decide),
    hbind {} spelledLabels customers _ rfl⟩

/-- A label that the store makes of a name, declared to be an object. -/
def objectLabel : Shape := .call "Upper" [.column "c" "Name" .string] (.object "Label")

theorem fragment?_not_isStore_objectLabel :
    let tree := Shape.construct "Labels" (.positional [objectLabel])
    (∃ g, standardStore objectLabel = some g ∧ g ∈ g.nodes ∧ ¬ g.type.isStore) ∧
    ∃ b, (bindShape {} standardStore tree customers).1.result = .ok ⟨b, .client⟩ ∧
      ∃ slot ∈ (bindShape {} standardStore tree customers).2.projection,
        slot ∉ customers.projection ∧ slot.fragment ∉ tree.buffered customers.behind? ∧
        ¬ slot.type.isStore :=
  ⟨⟨_, rfl, by decide, by decide⟩, _, rfl,
    ⟨.call "UPPER" [.column "c" "Name" .string] (.object "Label"), .object "Label"⟩, by decide,
    by decide, by decide, by decide⟩

end StoreFunctions

end QueryShaping
