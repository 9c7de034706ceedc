import QueryShaping.ParameterStore
import QueryShaping.Proofs.Binding.Parallel
import QueryShaping.Proofs.Binding.PushDown
import QueryShaping.Proofs.Shape.Positions

/-!
Lookups in bound shapes. Main statement: a lookup stands where the shape had its parameter, the
parameter is of a type that no value has, and every other parameter is behind a reference unless it
stands for a sequence; so whatever is set, no value but null is ever looked up (`bindShape_lookups`).
-/

namespace QueryShaping

theorem DataType.cases_of_not_isStore {type : DataType} (hs : type.isStore = false)
    (he : type.isEnumerable = false) :
    type = .valueBuffer ∨ (∃ name, type = .entity name) ∨ ∃ name, type = .object name := by
  cases type with
  | valueBuffer => exact .inl rfl
  | entity name => exact .inr (.inl ⟨name, rfl⟩)
  | object name => exact .inr (.inr ⟨name, rfl⟩)
  | enumerable => cases he
  | int64 | float32 | float64 | bool | string | date | timestamp => cases hs

theorem Value.exists_type? {v : Value} (h : v ≠ .null) :
    ∃ type, v.type? = some type ∧ type.isStore = true := by
  cases v with
  | null => exact absurd rfl h
  | _ => exact ⟨_, rfl, rfl⟩

namespace ParameterStore

/-- The parameter values after a history of settings. -/
def setAll (sets : List (String × Value)) : ParameterStore :=
  sets.foldl (fun values e => values.set e.1 e.2) ∅

variable {p : Parameter}

theorem resolve_unset {sets : List (String × Value)} (h : p.name ∉ sets.map Prod.fst) :
    (setAll sets).resolve p = .error (.unknownParameter p.name) := by
  have hg : (setAll sets).get? p.name = none := by
    refine (OrderedMap.get?_ofList sets p.name).trans (List.lookup_eq_none_iff.mpr fun e he => ?_)
    have hne : p.name ≠ e.1 := fun hn => h (hn ▸ List.mem_map_of_mem (List.mem_reverse.mp he))
    simpa using hne
  simp only [resolve, hg]

variable {before after : List (String × Value)} {v : Value}

theorem get?_setAll_last (h : p.name ∉ after.map Prod.fst) :
    (setAll (before ++ (p.name, v) :: after)).get? p.name = some v :=
  OrderedMap.get?_ofList_last h

theorem resolve_null (h : p.name ∉ after.map Prod.fst) :
    (setAll (before ++ (p.name, .null) :: after)).resolve p = .ok .null := by
  simp [resolve, get?_setAll_last h, Value.type?]

/-- No value that is not null has a type that a store cannot hold. -/
theorem resolve_foreign (hs : p.type.isStore = false) (h : p.name ∉ after.map Prod.fst)
    (hv : v ≠ .null) :
    ∃ actual, v.type? = some actual ∧ (setAll (before ++ (p.name, v) :: after)).resolve p =
      .error (.typeMismatch p.type actual) := by
  obtain ⟨actual, ha, hst⟩ := Value.exists_type? hv
  have hne : actual ≠ p.type := by
    rintro rfl
    cases hs.symm.trans hst
  exact ⟨actual, ha, by simp [resolve, get?_setAll_last h, ha, hne]⟩

end ParameterStore

namespace Binding

section positions

variable {mode : Mode} {n m : Shape} {p : Position}

theorem exists_getElem?_of_forall₂ {α β : Type} {R : α → β → Prop} {as : List α} {bs : List β}
    (h : List.Forall₂ R as bs) {i : Nat} {b : β} (hb : bs[i]? = some b) :
    ∃ a, as[i]? = some a ∧ R a b := by
  induction h generalizing i with
  | nil => cases hb
  | @cons a b' as bs hr _ ih =>
    cases i with
    | zero =>
      cases hb
      exact ⟨a, rfl, hr⟩
    | succ i => exact ih hb

/-- Whatever stands in a bound shape has a counterpart at the same position. -/
theorem Parallel.exists_at? (h : Parallel mode n m) {x : Shape} (hx : m.at? p = some x) :
    ∃ y, n.at? p = some y ∧ Parallel mode y x := by
  induction p generalizing n m with
  | nil =>
    cases hx
    exact ⟨n, rfl, h⟩
  | cons i p ih =>
    obtain ⟨c, hc, hx⟩ := Option.bind_eq_some_iff.mp hx
    cases h with
    | kept _ _ hp =>
      obtain ⟨d, hd, hr⟩ := exists_getElem?_of_forall₂ hp hc
      obtain ⟨y, hy, hyx⟩ := ih hr hx
      exact ⟨y, by rw [Shape.at?, hd, Option.bind_some, hy], hyx⟩
    | bound | deferred => cases hc

/-- Whatever stood in a shape has a counterpart, unless a reference above it took its place. -/
theorem Parallel.exists_at?_or (h : Parallel mode n m) {y : Shape} (hy : n.at? p = some y) :
    (∃ x, m.at? p = some x ∧ Parallel mode y x) ∨
      ∃ above r, above <+: p ∧ m.at? above = some (.reference r) := by
  induction p generalizing n m with
  | nil =>
    cases hy
    exact .inl ⟨m, rfl, h⟩
  | cons i p ih =>
    obtain ⟨d, hd, hy⟩ := Option.bind_eq_some_iff.mp hy
    cases h with
    | kept _ _ hp =>
      obtain ⟨c, hc, hr⟩ := exists_getElem?_of_forall₂ hp.flip hd
      have hm : ∀ q, m.at? (i :: q) = c.at? q := fun q => by rw [Shape.at?, hc, Option.bind_some]
      rcases ih hr hy with ⟨x, hx, hyx⟩ | ⟨above, r, ha, hx⟩
      · exact .inl ⟨x, (hm p).trans hx, hyx⟩
      · exact .inr ⟨i :: above, r, List.cons_prefix_cons.mpr ⟨rfl, ha⟩, (hm above).trans hx⟩
    | @bound _ r => exact .inr ⟨[], r, List.nil_prefix, rfl⟩
    | deferred => cases hd

end positions

section settled

variable {store : Store}

/-- A parameter that is left stands for a sequence, and one that is looked up is not for the store. -/
def Settled (store : Store) (n : Shape) : Prop :=
  (∀ q, n = .parameter q → q.type.isEnumerable = true) ∧
    ∀ q, n = .lookup q → q.type.isEnumerable = false ∧ store (.parameter q) = none

theorem settled_addressed (query : QueryId) (path : Address) {n : Shape}
    (hn : ∀ q, n ≠ .lookup q) : Settled store (Server.addressed query path n) := by
  cases n with
  | lookup q => exact absurd rfl (hn q)
  | parameter q =>
    by_cases hq : q.type.isEnumerable <;> simp [Settled, Server.addressed, hq]
  | _ => simp [Settled, Server.addressed]

variable {behind? : Reference → Option Fragment} {refer : Fragment → DataType → Reference}

theorem settled_replace {s r : Shape} (h : store s = none → Settled store r) :
    Settled store (Client.replace store refer s r) := by
  unfold Client.replace
  split
  · simp [Settled]
  · next hs => exact h hs

theorem settled_residue {n : Shape} (hn : ∀ q, n ≠ .lookup q) :
    Settled store (Client.residue store behind? refer n) := by
  cases n with
  | lookup q => exact absurd rfl (hn q)
  | parameter q =>
    by_cases hq : q.type.isEnumerable
    · simp [Settled, Client.residue, hq]
    · rw [Client.residue, if_neg hq]
      exact settled_replace fun hs => by simp [Settled, hq, hs]
  | entity type buffer => cases hb : behind? buffer <;> simp [Settled, Client.residue, hb]
  | constant | column | binary | call => exact settled_replace fun _ => by simp [Settled]
  | construct | memberInit | attach | group | reference => simp [Settled, Client.residue]

end settled

section bind

variable {config : Config} {store : Store} {s : Shape} {owner : Select} {b : Shape} {mode : Mode}

theorem ne_lookup_of_intact (hi : Intact owner s) {n : Shape} (hn : n ∈ s.nodes) (q : Parameter) :
    n ≠ .lookup q := by
  rintro rfl
  cases hi _ hn

theorem settled_of_bindShape (h : (bindShape config store s owner).1.result = .ok ⟨b, mode⟩) :
    ∀ n ∈ b.nodes, Settled store n := by
  intro n hn
  cases mode with
  | server =>
    obtain ⟨hi, ho, rfl, -⟩ := eq_of_bindShape_server h
    rw [serverBound, Server.nodes_addressed owner.id s .root ho] at hn
    obtain ⟨v, hv, rfl⟩ := List.mem_map.mp hn
    exact settled_addressed owner.id v.1
      (ne_lookup_of_intact hi (Server.nodes_of_visited s .root hv))
  | client =>
    obtain ⟨hi, rfl, -⟩ := eq_of_bindShape_client h
    rw [clientBound, Client.nodes_residue] at hn
    obtain ⟨m, hm, rfl⟩ := List.mem_map.mp hn
    exact settled_residue (ne_lookup_of_intact hi (Shape.nodes_of_exposed _ hm))

theorem parallel_of_bindShape (h : (bindShape config store s owner).1.result = .ok ⟨b, mode⟩) :
    Intact owner s ∧ Parallel mode s b := by
  cases mode with
  | server =>
    obtain ⟨hi, ho, rfl, -⟩ := eq_of_bindShape_server h
    exact ⟨hi, Server.parallel_addressed owner.id s .root ho⟩
  | client =>
    obtain ⟨hi, rfl, -⟩ := eq_of_bindShape_client h
    exact ⟨hi, Client.parallel_residue store owner.behind? (projected store owner s) s⟩

/-- A lookup stands where the shape had the same parameter. -/
theorem at?_of_lookup (h : (bindShape config store s owner).1.result = .ok ⟨b, mode⟩)
    {p : Position} {q : Parameter} (hq : b.at? p = some (.lookup q)) :
    s.at? p = some (.parameter q) := by
  obtain ⟨hi, hp⟩ := parallel_of_bindShape h
  obtain ⟨y, hy, hyq⟩ := hp.exists_at? hq
  cases hyq with
  | deferred => exact hy
  | kept hl =>
    have hn := ne_lookup_of_intact hi (Shape.mem_nodes_of_at? hy) q
    cases y <;> cases hl
    exact absurd rfl hn

/-- A parameter of a single value is looked up, or a reference stands for it or above it. -/
theorem lookup_or_reference (h : (bindShape config store s owner).1.result = .ok ⟨b, mode⟩)
    {p : Position} {q : Parameter} (hq : s.at? p = some (.parameter q))
    (he : q.type.isEnumerable = false) :
    b.at? p = some (.lookup q) ∨ ∃ above r, above <+: p ∧ b.at? above = some (.reference r) := by
  obtain ⟨-, hp⟩ := parallel_of_bindShape h
  rcases hp.exists_at?_or hq with ⟨x, hx, hqx⟩ | hr
  · cases hqx with
    | deferred => exact .inl hx
    | @bound _ r => exact .inr ⟨p, r, List.prefix_rfl, hx⟩
    | kept hl =>
      have hs := (settled_of_bindShape h x (Shape.mem_nodes_of_at? hx)).1
      cases x <;> cases hl
      cases he.symm.trans (hs q rfl)
  · exact .inr hr

end bind

/-- In a bound shape a lookup stands where the shape had the same parameter, and every other
parameter of a single value is behind a reference. What is looked up is of a type that no value has:
it is unknown until it is set, then null if null was set last, and refused for its type if not. -/
theorem bindShape_lookups (config : Config) (functions : StoreFunctions) (s : Shape)
    (owner : Select) {b : Shape} {mode : Mode}
    (h : (bindShape config functions.fragment? s owner).1.result = .ok ⟨b, mode⟩) :
    (∀ p q, b.at? p = some (.lookup q) →
      s.at? p = some (.parameter q) ∧
      (q.type = .valueBuffer ∨ (∃ name, q.type = .entity name) ∨ ∃ name, q.type = .object name) ∧
      (∀ sets, q.name ∉ sets.map Prod.fst →
        (ParameterStore.setAll sets).resolve q = .error (.unknownParameter q.name)) ∧
      ∀ before v after, q.name ∉ after.map Prod.fst →
        let values := ParameterStore.setAll (before ++ (q.name, v) :: after)
        (v = .null → values.resolve q = .ok .null) ∧
        (v ≠ .null → ∃ actual, v.type? = some actual ∧
          values.resolve q = .error (.typeMismatch q.type actual))) ∧
    ∀ p q, s.at? p = some (.parameter q) → q.type.isEnumerable = false →
      b.at? p = some (.lookup q) ∨
        ∃ above r, above <+: p ∧ b.at? above = some (.reference r) := by
  refine ⟨fun p q hq => ⟨at?_of_lookup h hq, ?_⟩, fun p q hq he => lookup_or_reference h hq he⟩
  obtain ⟨he, hf⟩ := (settled_of_bindShape h _ (Shape.mem_nodes_of_at? hq)).2 q rfl
  have hs : q.type.isStore = false := by simpa [StoreFunctions.fragment?] using hf
  refine ⟨DataType.cases_of_not_isStore hs he, fun sets hn => ParameterStore.resolve_unset hn, ?_⟩
  intro before v after hn values
  refine ⟨?_, ParameterStore.resolve_foreign hs hn⟩
  rintro rfl
  exact ParameterStore.resolve_null hn

theorem bindShape_lookups_culture :
    let culture : Parameter := ⟨"culture", .object "Culture"⟩
    ∃ b, (bindShape {} standardStore (customerView localName) customers).1.result =
        .ok ⟨b, .client⟩ ∧
      b.at? [3, 1] = some (.lookup culture) ∧
      (customerView localName).at? [3, 1] = some (.parameter culture) ∧
      (ParameterStore.setAll []).resolve culture = .error (.unknownParameter "culture") ∧
      (ParameterStore.setAll [("culture", .string "de"), ("culture", .null)]).resolve culture =
        .ok .null ∧
      ∃ actual, Value.type? (.string "de") = some actual ∧
        (ParameterStore.setAll [("culture", .string "de")]).resolve culture =
          .error (.typeMismatch (.object "Culture") actual) := by
  intro culture
  have h := @bindShape_lookups {} .standard (customerView localName) customers
    (clientBound standardStore customers (customerView localName)) .client rfl
  obtain ⟨ha, -, hu, hl⟩ := h.1 [3, 1] culture rfl
  exact ⟨_, rfl, rfl, ha, hu [] (by decide), (hl [_] .null [] (by decide)).1 rfl,
    (hl [] (.string "de") [] (by decide)).2 (by decide)⟩

end Binding

end QueryShaping
