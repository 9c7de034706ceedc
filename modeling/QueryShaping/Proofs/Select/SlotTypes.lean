import QueryShaping.Proofs.Binding.Locality
import QueryShaping.Proofs.Binding.PushDown

/-!
Types of slots. A slot is of the type of its fragment, unless an entity was read from the fragment
on the client (`typed_run`). A reference is of the type of the fragment that it reads, unless it is
the buffer of an entity (`type_bound`). Main statement: after a bind the references of the bound
shape and their slots are of the same types, such fragments and buffers apart (`slot_types_run`).
-/

namespace QueryShaping

/-- The type is that of the fragment, or the fragment is read as a value buffer. -/
def Fits (buffered : List Fragment) (f : Fragment) (type : DataType) : Prop :=
  type = f.type ∨ type = .valueBuffer ∧ f ∈ buffered

section Fits

variable {as bs : List Fragment} {f : Fragment} {type : DataType}

theorem Fits.mono (h : Fits as f type) (hs : as ⊆ bs) : Fits bs f type :=
  h.imp_right (And.imp_right (@hs f))

theorem Fits.eq_type (h : Fits as f type) (hf : f.type = .valueBuffer ∨ f ∉ as) :
    type = f.type := by
  rcases h with ht | ⟨rfl, hm⟩
  · exact ht
  · exact (hf.resolve_right fun hn => hn hm).symm

end Fits

namespace Binding

variable {functions : StoreFunctions} {s : Shape} {owner : Select}

theorem fits_demands {behind? : Reference → Option Fragment} {slot : Slot}
    (h : slot ∈ Client.demands functions.fragment? behind? s) :
    Fits (s.buffered behind?) slot.fragment slot.type := by
  obtain ⟨hb, ht⟩ | ⟨n, -, hf, ht⟩ := Client.demand_cases h
  · exact .inr ⟨ht, hb⟩
  · exact .inl (ht.trans (StoreFunctions.type_of_fragment? hf).symm)

theorem type_clientBound (hi : Intact owner s) {r : Reference}
    (hr : r ∈ (clientBound functions.fragment? owner s).references) :
    ∃ f, ((projected functions.fragment? owner s).install ∅).read? r = some f ∧
      (r.type = f.type ∨ r.type = .valueBuffer) := by
  rw [references_clientBound functions.fragment? hi] at hr
  obtain ⟨slot, hs, rfl⟩ := List.mem_map.mp hr
  exact ⟨slot.fragment, read?_answer hs, (fits_demands hs).imp_right And.left⟩

/-- A reference of a shape bound on the server stands for a recording. -/
def StandsFor (owner : Select) (e : Address × Fragment) (r : Reference) : Prop :=
  r.query = owner.id ∧ r.target = .address e.1 ∧ (r.type = e.2.type ∨ r.type = .valueBuffer)

theorem map_target_of_standsFor {es : List (Address × Fragment)} {rs : List Reference}
    (h : List.Forall₂ (StandsFor owner) es rs) :
    (es.map Prod.fst).map Target.address = rs.map Reference.target := by
  rw [List.map_map]
  exact map_eq_map_of_forall₂ h fun _ _ h => h.2.1.symm

theorem rel_visited {p : Address × Shape} (hd : defect? owner p.2 = none)
    (ho : Server.obstacle? functions.fragment? p.2 = none) :
    Option.Rel (StandsFor owner) (Server.asRecording? functions.fragment? owner.behind? p)
      (Server.addressed owner.id p.1 p.2).reference? := by
  obtain ⟨path, n⟩ := p
  by_cases hs : n.isScalar
  · have hf : functions.fragment? n ≠ none := by simpa [Server.obstacle?_of_isScalar hs] using ho
    obtain ⟨f, hf⟩ := Option.ne_none_iff_exists'.mp hf
    rw [Server.asRecording?, Server.fragment?_of_isScalar hs, hf,
      Server.addressed_of_isScalar owner.id path hs]
    exact .some ⟨rfl, rfl, .inl (StoreFunctions.type_of_fragment? hf).symm⟩
  · cases n with
    | entity type buffer =>
      obtain ⟨a, f, -, -, hf⟩ := exists_behind?_of_intact (List.forall_mem_singleton.mpr hd)
      rw [Server.asRecording?, Server.fragment?, hf]
      exact .some ⟨rfl, rfl, .inr rfl⟩
    | parameter p =>
      have hp : p.type.isEnumerable := by simpa [Shape.isScalar] using hs
      simp only [Server.asRecording?, Server.fragment?, hs, Server.addressed, hp]
      exact .none
    | construct | memberInit | group | lookup => exact .none
    | constant | column | binary | call => exact absurd rfl hs
    | attach => cases ho
    | reference => cases hd

theorem forall₂_serverBound (hi : Intact owner s)
    (ho : Server.obstacles functions.fragment? .root s = []) :
    List.Forall₂ (StandsFor owner) (Server.recordings functions.fragment? owner.behind? .root s)
      (serverBound owner s).references := by
  rw [Server.recordings_eq, Shape.references_eq, serverBound,
    Server.nodes_addressed owner.id s .root ho, List.filterMap_map]
  refine forall₂_filterMap fun p hp => ?_
  exact rel_visited (hi p.2 (Server.nodes_of_visited s .root hp))
    (Server.obstacles_eq_nil_iff.mp ho p hp)

/-- A reference reads the fragment of the last recording at its address. That is its own unless a
later reference has the address too. -/
theorem type_serverBound (hi : Intact owner s)
    (ho : Server.obstacles functions.fragment? .root s = []) {before later : List Reference}
    {r : Reference} (hr : (serverBound owner s).references = before ++ r :: later) :
    ∃ f, (owner.install (serverMapping functions.fragment? owner s)).flatten.read? r = some f ∧
      ((∀ q ∈ later, q.target ≠ r.target) → r.type = f.type ∨ r.type = .valueBuffer) := by
  -- The recordings split where the references do: `(a, g)` is the one that `r` stands for.
  have hall := forall₂_serverBound hi ho
  rw [hr] at hall
  obtain ⟨⟨a, g⟩, es, ⟨hq, ht, htype⟩, hes, hdrop⟩ :=
    List.forall₂_cons_right_iff.mp (List.forall₂_drop_append _ _ _ hall)
  have hsplit := List.take_append_drop before.length
    (Server.recordings functions.fragment? owner.behind? .root s)
  rw [hdrop] at hsplit
  obtain ⟨f, hf⟩ := exists_get?_serverMapping
    (hsplit ▸ List.mem_append_right _ List.mem_cons_self : (a, g) ∈ _)
  refine ⟨f, ?_, fun hlast => ?_⟩
  · have hr : r = ⟨owner.id, .address a, r.type⟩ := by rw [← hq, ← ht]
    rw [hr]
    exact Select.read?_flatten hf r.type
  · have hk : a ∉ es.map Prod.fst := by
      intro hm
      have hm : Target.address a ∈ later.map Reference.target :=
        map_target_of_standsFor hes ▸ List.mem_map_of_mem hm
      obtain ⟨q, hq, hqt⟩ := List.mem_map.mp hm
      exact hlast q hq (hqt.trans ht.symm)
    rw [serverMapping, ← hsplit, OrderedMap.get?_ofList_last hk] at hf
    exact Option.some.inj hf ▸ htype

/-- Where no construction names a member twice, no later reference has the address. -/
theorem target_ne_of_namesOnce (hi : Intact owner s)
    (ho : Server.obstacles functions.fragment? .root s = []) (hn : s.NamesOnce)
    {before later : List Reference} {r : Reference}
    (hr : (serverBound owner s).references = before ++ r :: later) :
    ∀ q ∈ later, q.target ≠ r.target := by
  have hinj : Function.Injective Target.address := fun _ _ h => Target.address.inj h
  have hrec : ((Server.recordings functions.fragment? owner.behind? .root s).map Prod.fst).Nodup :=
    Server.nodup_recordings s .root hn
  have hd := hrec.map hinj
  rw [map_target_of_standsFor (forall₂_serverBound hi ho), hr, List.map_append, List.map_cons] at hd
  intro q hq ht
  have hnot : r.target ∉ later.map Reference.target :=
    (List.nodup_cons.mp (List.nodup_append.mp hd).2.1).1
  exact hnot (ht ▸ List.mem_map_of_mem hq)

theorem type_bound {config : Config} {b : Shape} {mode : Mode}
    (h : (bindShape config functions.fragment? s owner).1.result = .ok ⟨b, mode⟩)
    {before later : List Reference} {r : Reference} (hr : b.references = before ++ r :: later) :
    ∃ f, (mode.reader (bindShape config functions.fragment? s owner).2).read? r = some f ∧
      ((mode = .client ∨ s.NamesOnce ∨ ∀ q ∈ later, q.target ≠ r.target) →
        r.type = f.type ∨ r.type = .valueBuffer) := by
  cases mode with
  | client =>
    obtain ⟨hi, rfl, ha⟩ := eq_of_bindShape_client h
    rw [ha]
    obtain ⟨f, hf, htype⟩ := type_clientBound hi (hr ▸ List.mem_append_right _ List.mem_cons_self)
    exact ⟨f, hf, fun _ => htype⟩
  | server =>
    obtain ⟨hi, ho, rfl, ha⟩ := eq_of_bindShape_server h
    rw [ha]
    obtain ⟨f, hf, htype⟩ := type_serverBound hi ho hr
    refine ⟨f, hf, fun hcond => htype ?_⟩
    rcases hcond with hc | hn | hlast
    · cases hc
    · exact target_ne_of_namesOnce hi ho hn hr
    · exact hlast

end Binding

namespace Select

/-- Whatever adds slots is a bind against a store of functions, or a flattening. -/
inductive Action.Ordinary : Action → Prop
  | mapAddress (address : Address) (fragment : Fragment) : Ordinary (.mapAddress address fragment)
  | install (mapping : Mapping) : Ordinary (.install mapping)
  | flatten : Ordinary .flatten
  | bind (config : Config) (functions : StoreFunctions) (shape : Shape) :
    Ordinary (.bind config functions.fragment? shape)

/-- The fragments that entities are read from on the client. -/
def bufferedBy (s : Select) : Action → List Fragment
  | .bind config store shape =>
    match (bindShape config store shape s).1.result with
    | .ok ⟨_, .client⟩ => shape.buffered s.behind?
    | .ok ⟨_, .server⟩ | .error _ => []
  | .mapAddress .. | .project .. | .projectBuffer _ | .install _ | .flatten => []

def bufferedIn (s : Select) : List Action → List Fragment
  | [] => []
  | a :: actions => s.bufferedBy a ++ (s.act a).bufferedIn actions

/-- All slots have types that fit their fragments. -/
def Typed (buffered : List Fragment) (s : Select) : Prop :=
  ∀ slot ∈ s.projection, Fits buffered slot.fragment slot.type

section typed

variable {as bs : List Fragment} {s : Select}

theorem Typed.mono (h : Typed as s) (hs : as ⊆ bs) : Typed bs s :=
  fun slot hm => (h slot hm).mono hs

theorem Typed.addAll (h : Typed as s) {slots : List Slot}
    (hs : ∀ slot ∈ slots, Fits as slot.fragment slot.type) : Typed as (s.addAll slots) :=
  fun slot hm => (mem_projection_addAll hm).elim (h slot) (hs slot)

theorem Typed.flatten (h : Typed as s) : Typed as s.flatten := by
  have hs : ∀ slot ∈ slotsOf s.mapping.entries, Fits as slot.fragment slot.type := by
    intro slot hm
    obtain ⟨e, -, rfl⟩ := List.mem_map.mp hm
    exact .inl rfl
  rw [flatten_eq]
  exact h.addAll hs

theorem typed_act (h : Typed as s) {a : Action} (ha : a.Ordinary) :
    Typed (as ++ s.bufferedBy a) (s.act a) := by
  have hmono : Typed (as ++ s.bufferedBy a) s := h.mono (List.subset_append_left _ _)
  cases ha with
  | mapAddress | install => exact hmono
  | flatten => exact hmono.flatten
  | bind config functions shape =>
    obtain ⟨e, -, hs⟩ | ⟨-, -, steps, hs⟩ | ⟨-, steps, hs⟩ :=
      Binding.bindShape_cases config functions.fragment? shape s
    · rw [act, hs]
      exact hmono
    · rw [act, hs]
      exact hmono
    · simp only [bufferedBy, act, hs] at hmono ⊢
      refine hmono.addAll fun slot hm => ?_
      exact (Binding.fits_demands hm).mono (List.subset_append_right _ _)

theorem typed_run {actions : List Action} (h : Typed as s) (ha : ∀ a ∈ actions, a.Ordinary) :
    Typed (as ++ s.bufferedIn actions) (s.run actions) := by
  induction actions generalizing as s with
  | nil => exact h.mono (List.subset_append_left _ _)
  | cons a actions ih =>
    obtain ⟨ha, hs⟩ := List.forall_mem_cons.mp ha
    rw [bufferedIn, ← List.append_assoc]
    exact ih (typed_act h ha) hs

theorem typed_of_new (h : New s) : Typed [] s := by
  cases h <;> exact List.forall_mem_nil _

theorem Typed.exists_slot (h : Typed as s) {r : Reference} {f : Fragment}
    (hr : s.read? r = some f) :
    ∃ i slot, s.slot? r = some i ∧ s.projection[i]? = some slot ∧ slot.fragment = f ∧
      Fits as f slot.type := by
  obtain ⟨i, hi, hf⟩ := Option.bind_eq_some_iff.mp hr
  rw [fragments, List.getElem?_map] at hf
  obtain ⟨slot, hslot, rfl⟩ := Option.map_eq_some_iff.mp hf
  exact ⟨i, slot, hi, hslot, rfl, h slot (List.mem_of_getElem? hslot)⟩

end typed

open Binding

/-- Whatever was done to a new select, every reference of a bound shape has a slot, and the slot is
of the type of the reference. Exceptions are fragments that are no value buffers but that entities
are read from, and on the server references whose address a later value of the member takes. -/
theorem slot_types_run {start : Select} (h : New start) {actions : List Action}
    (ha : ∀ a ∈ actions, a.Ordinary) (config : Config) (functions : StoreFunctions) (shape : Shape)
    {b : Shape} {mode : Mode}
    (hb : (bindShape config functions.fragment? shape (start.run actions)).1.result =
      .ok ⟨b, mode⟩) :
    let after := mode.reader (bindShape config functions.fragment? shape (start.run actions)).2
    let buffered := start.bufferedIn (actions ++ [.bind config functions.fragment? shape])
    ∀ before r later, b.references = before ++ r :: later →
      ∃ i slot, after.slot? r = some i ∧ after.projection[i]? = some slot ∧
        ((mode = .client ∨ shape.NamesOnce ∨ ∀ q ∈ later, q.target ≠ r.target) →
          (slot.fragment.type = .valueBuffer ∨
            r.type ≠ .valueBuffer ∧ slot.fragment ∉ buffered) →
          slot.type = r.type) := by
  intro after buffered before r later hr
  have hbound : Typed buffered (start.run (actions ++ [.bind config functions.fragment? shape])) :=
    typed_run (typed_of_new h) (List.forall_mem_append.mpr
      ⟨ha, List.forall_mem_singleton.mpr (.bind config functions shape)⟩)
  rw [run, List.foldl_append] at hbound
  have hafter : Typed buffered after := by
    cases mode with
    | client => exact hbound
    | server => exact hbound.flatten
  obtain ⟨f, hread, htype⟩ := type_bound hb hr
  obtain ⟨i, slot, hi, hslot, rfl, hfits⟩ := hafter.exists_slot hread
  refine ⟨i, slot, hi, hslot, fun hlast hf => ?_⟩
  rw [hfits.eq_type (hf.imp_right And.right)]
  rcases htype hlast with ht | hr
  · exact ht.symm
  · exact (hf.resolve_right fun hne => hne.1 hr).trans hr.symm

/-- Customers are flattened, a label is computed on the client, and customers are mapped again. -/
def remappedCustomers : List Action :=
  [.flatten, .bind {} standardStore (customerView localName),
    .mapAddress .root (.entity ⟨"Customer", "c", [("Id", .int64), ("Name", .string)]⟩)]

theorem slot_types_run_remappedCustomers :
    let start := ofEntity ⟨1⟩ ⟨"Customer", "c", [("Id", .int64), ("Name", .string)]⟩
    let run := bindShape {} standardStore (customerView upperName) (start.run remappedCustomers)
    let label : Reference := ⟨⟨1⟩, .address [⟨"View", "Label"⟩], .string⟩
    ∃ b, run.1.result = .ok ⟨b, .server⟩ ∧ label ∈ b.references ∧
      ∃ i slot, run.2.flatten.slot? label = some i ∧
        run.2.flatten.projection[i]? = some slot ∧ slot.type = .string := by
  intro start run label
  have hnew : New start := .ofEntity _ _
  have ha : ∀ a ∈ remappedCustomers, a.Ordinary :=
    List.forall_mem_cons.mpr ⟨.flatten, List.forall_mem_cons.mpr
      ⟨.bind {} .standard (customerView localName),
        List.forall_mem_singleton.mpr (.mapAddress _ _)⟩⟩
  have hn : (customerView upperName).NamesOnce := by decide
  have hbuffered : ∀ f ∈ start.bufferedIn (remappedCustomers ++
      [.bind {} standardStore (customerView upperName)]), f.type = .valueBuffer := by decide
  obtain ⟨i, slot, hi, hslot, htype⟩ :=
    slot_types_run hnew ha {} .standard (customerView upperName) rfl [_, _, _] label [] rfl
  refine ⟨_, rfl, by decide, i, slot, hi, hslot, htype (.inr (.inl hn)) ?_⟩
  exact or_iff_not_imp_left.mpr fun hf => ⟨nofun, fun hm => hf (hbuffered _ hm)⟩

/-- A select whose root is a key. -/
def rootKey : Select := (empty ⟨1⟩).mapAddress .root (.column "c" "Id" .int64)

/-- Of two values for one member both references have the slot of the last, and an entity has the
slot of whatever is mapped where it is read from. -/
theorem slot_types_differ_doubled :
    (let run := bindShape {} standardStore doubled (empty ⟨1⟩)
      ∃ b, run.1.result = .ok ⟨b, .server⟩ ∧ ∃ r ∈ b.references, ∃ i slot,
        run.2.flatten.slot? r = some i ∧ run.2.flatten.projection[i]? = some slot ∧
          slot.type ≠ r.type) ∧
    (let run := bindShape {} standardStore (.entity "Customer" (rootKey.buffer .root)) rootKey
      ∃ b, run.1.result = .ok ⟨b, .server⟩ ∧ ∃ r ∈ b.references, ∃ i slot,
        run.2.flatten.slot? r = some i ∧ run.2.flatten.projection[i]? = some slot ∧
          slot.type ≠ r.type) :=
  ⟨⟨_, rfl, ⟨⟨1⟩, .address [⟨"Pair", "Item"⟩], .int64⟩, by decide, 0,
      ⟨.column "c" "Name" .string, .string⟩, by decide⟩,
    ⟨_, rfl, ⟨⟨1⟩, .address .root, .valueBuffer⟩, by decide, 0,
      ⟨.column "c" "Id" .int64, .int64⟩, by decide⟩⟩

end Select

end QueryShaping
