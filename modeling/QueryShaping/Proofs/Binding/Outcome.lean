import QueryShaping.Binding.Bind
import QueryShaping.Proofs.Binding.Demands
import QueryShaping.Proofs.Binding.Recordings

/-!
How a bind against a select ends: it is refused, or the shape is bound on the server, or it is bound
on the client (`bindShape_cases`). Main statement: a bind that is refused leaves the select as it
was, and a client pass is never refused after the check (`bindShape_atomic`).
-/

namespace QueryShaping.Binding

/-- A select whose projection has the slots that a shape demands. -/
def projected (store : Store) (owner : Select) (s : Shape) : Select :=
  owner.addAll (Client.demands store owner.behind? s)

/-- What a shape is after it was bound on the client. -/
def clientBound (store : Store) (owner : Select) (s : Shape) : Shape :=
  Client.residue store owner.behind? (projected store owner s).refer s

/-- What a shape is after it was bound on the server. -/
def serverBound (owner : Select) (s : Shape) : Shape := Server.addressed owner.id .root s

/-- The mapping that a server pass over a shape leaves. -/
def serverMapping (store : Store) (owner : Select) (s : Shape) : Mapping :=
  .ofList (Server.recordings store owner.behind? .root s)

variable {config : Config} {store : Store} {s : Shape} {owner : Select}

theorem address_of_mem_serverBound (hi : Intact owner s) (ho : Server.obstacles store .root s = [])
    {r : Reference} (hr : r ∈ (serverBound owner s).references) :
    r.query = owner.id ∧
      ∃ e ∈ Server.recordings store owner.behind? .root s, r.target = .address e.1 := by
  have hm : (r.query, r.target) ∈
      (serverBound owner s).references.map (fun r => (r.query, r.target)) := List.mem_map_of_mem hr
  rw [serverBound, Server.references_addressed s .root hi ho] at hm
  obtain ⟨e, he, heq⟩ := List.mem_map.mp hm
  obtain ⟨hq, ht⟩ := Prod.mk.inj heq
  exact ⟨hq.symm, e, he, ht.symm⟩

theorem finishServer_returns (query : QueryId) (mapping : Mapping) (s : Shape) :
    (finishServer query mapping s).Returns owner ⟨s, .server⟩ (owner.install mapping) :=
  (Pass.returns_tell _ _).bind ((Pass.returns_update _ _).bind (Pass.returns_pure _ _))

theorem client_returns (store : Store) (hi : Intact owner s) :
    (Client.shape store s).Returns owner (clientBound store owner s) (projected store owner s) :=
  Client.shape_returns s [] hi (.refl _)

theorem fallBack_returns (hi : Intact owner s) (query : QueryId) (kind : Kind) (path : Address) :
    (fallBack query store s kind path).Returns owner ⟨clientBound store owner s, .client⟩
      ((projected store owner s).install ∅) :=
  (Pass.returns_tell _ _).bind <| (client_returns store hi).bind <|
    (Pass.returns_update _ _).bind <| (Pass.returns_tell _ _).bind (Pass.returns_pure _ _)

theorem bindShape_of_defect (config : Config) (store : Store) {e : Error}
    (h : s.nodes.findSome? (defect? owner) = some e) :
    bindShape config store s owner = (.stop e, owner) := by
  have hc : check owner s = .error e := by rw [check_eq, h, verdict]
  simp only [bindShape, hc]

theorem bindShape_returns {b : Bound} {after : Select} (hi : Intact owner s)
    (h : (conclude config.policy owner.id store s (Server.shape owner store .root s)).Returns owner
      b after) :
    (bindShape config store s).Returns owner b after := by
  obtain ⟨steps, hs⟩ := h
  refine ⟨.started owner.id s.kind :: (Server.shape owner store .root s).steps ++ steps, ?_⟩
  simp only [bindShape, (check_eq_ok_iff owner s).mpr hi]
  rw [show Owner.id owner = owner.id from rfl, hs]

theorem bindShape_server (hi : Intact owner s) (ho : Server.obstacles store .root s = []) :
    (bindShape config store s).Returns owner ⟨serverBound owner s, .server⟩
      (owner.install (serverMapping store owner s)) := by
  obtain ⟨hr, hm⟩ := Server.shape_returns s .root hi ho
  refine bindShape_returns hi ?_
  simp only [conclude, hr, recordedMapping, hm]
  exact finishServer_returns ..

theorem bindShape_client (hi : Intact owner s) {o : Kind × Address}
    (ho : (Server.obstacles store .root s).head? = some o) (hp : config.policy ≠ .forbid) :
    (bindShape config store s).Returns owner ⟨clientBound store owner s, .client⟩
      ((projected store owner s).install ∅) := by
  have hr := Server.shape_stops s .root hi o ho
  refine bindShape_returns hi ?_
  simp only [conclude, show (Server.shape owner store .root s).result = _ from hr]
  cases hc : config.policy with
  | forbid => exact absurd hc hp
  | allow | warn => exact fallBack_returns hi ..

theorem bindShape_forbidden (hi : Intact owner s) {o : Kind × Address}
    (ho : (Server.obstacles store .root s).head? = some o) (hp : config.policy = .forbid) :
    (bindShape config store s owner).1.result = .error (.clientEvaluationForbidden o.1 o.2) ∧
      (bindShape config store s owner).2 = owner := by
  have hr := Server.shape_stops s .root hi o ho
  simp only [bindShape, (check_eq_ok_iff owner s).mpr hi, conclude, hp,
    show (Server.shape owner store .root s).result = _ from hr]
  exact ⟨rfl, rfl⟩

/-- What a bind answers and leaves: the first defect decides, then the first obstacle. -/
def outcome (config : Config) (store : Store) (s : Shape) (owner : Select) :
    Except Error Bound × Select :=
  match s.nodes.findSome? (defect? owner), (Server.obstacles store .root s).head? with
  | some e, _ => (.error e, owner)
  | none, none =>
    (.ok ⟨serverBound owner s, .server⟩, owner.install (serverMapping store owner s))
  | none, some o =>
    if config.policy = .forbid then (.error (.clientEvaluationForbidden o.1 o.2), owner)
    else (.ok ⟨clientBound store owner s, .client⟩, (projected store owner s).install ∅)

theorem bindShape_outcome (config : Config) (store : Store) (s : Shape) (owner : Select) :
    ((bindShape config store s owner).1.result, (bindShape config store s owner).2) =
      outcome config store s owner := by
  cases hd : s.nodes.findSome? (defect? owner) with
  | some e =>
    rw [bindShape_of_defect config store hd, outcome, hd]
    rfl
  | none =>
    have hi : Intact owner s := List.findSome?_eq_none_iff.mp hd
    cases ho : (Server.obstacles store .root s).head? with
    | none =>
      obtain ⟨steps, hs⟩ : (bindShape config store s).Returns owner _ _ :=
        bindShape_server hi (List.head?_eq_none_iff.mp ho)
      rw [hs, outcome, hd, ho]
    | some o =>
      rw [outcome, hd, ho]
      by_cases hp : config.policy = .forbid
      · obtain ⟨hr, ha⟩ := bindShape_forbidden hi ho hp
        simp only [hr, ha, hp, if_true]
      · obtain ⟨steps, hs⟩ : (bindShape config store s).Returns owner _ _ :=
          bindShape_client hi ho hp
        rw [hs]
        simp only [hp, if_false]

theorem result_bindShape (config : Config) (store : Store) (s : Shape) (owner : Select) :
    (bindShape config store s owner).1.result = (outcome config store s owner).1 :=
  congrArg Prod.fst (bindShape_outcome config store s owner)

theorem select_bindShape (config : Config) (store : Store) (s : Shape) (owner : Select) :
    (bindShape config store s owner).2 = (outcome config store s owner).2 :=
  congrArg Prod.snd (bindShape_outcome config store s owner)

/-- The three ends of a bind. -/
theorem bindShape_cases (config : Config) (store : Store) (s : Shape) (owner : Select) :
    (∃ e, (bindShape config store s owner).1.result = .error e ∧
      (bindShape config store s owner).2 = owner) ∨
    (Intact owner s ∧ Server.obstacles store .root s = [] ∧
      (bindShape config store s).Returns owner ⟨serverBound owner s, .server⟩
        (owner.install (serverMapping store owner s))) ∨
    (Intact owner s ∧ (bindShape config store s).Returns owner ⟨clientBound store owner s, .client⟩
      ((projected store owner s).install ∅)) := by
  cases hd : s.nodes.findSome? (defect? owner) with
  | some e =>
    have hb := bindShape_of_defect config store hd
    exact .inl ⟨e, congrArg (·.1.result) hb, congrArg (·.2) hb⟩
  | none =>
    have hi : Intact owner s := List.findSome?_eq_none_iff.mp hd
    cases ho : Server.obstacles store .root s with
    | nil => exact .inr (.inl ⟨hi, rfl, bindShape_server hi ho⟩)
    | cons o os =>
      have hh : (Server.obstacles store .root s).head? = some o := by rw [ho, List.head?_cons]
      by_cases hp : config.policy = .forbid
      · exact .inl ⟨_, bindShape_forbidden hi hh hp⟩
      · exact .inr (.inr ⟨hi, bindShape_client hi hh hp⟩)

theorem eq_of_bindShape_server {b : Shape}
    (h : (bindShape config store s owner).1.result = .ok ⟨b, .server⟩) :
    Intact owner s ∧ Server.obstacles store .root s = [] ∧ b = serverBound owner s ∧
      (bindShape config store s owner).2 = owner.install (serverMapping store owner s) := by
  rcases bindShape_cases config store s owner with
    ⟨e, he, -⟩ | ⟨hi, ho, steps, hs⟩ | ⟨-, steps, hc⟩
  · rw [he] at h
    cases h
  · rw [hs] at h ⊢
    cases h
    exact ⟨hi, ho, rfl, rfl⟩
  · rw [hc] at h
    cases h

theorem eq_of_bindShape_client {b : Shape}
    (h : (bindShape config store s owner).1.result = .ok ⟨b, .client⟩) :
    Intact owner s ∧ b = clientBound store owner s ∧
      (bindShape config store s owner).2 = (projected store owner s).install ∅ := by
  rcases bindShape_cases config store s owner with
    ⟨e, he, -⟩ | ⟨-, -, steps, hs⟩ | ⟨hi, steps, hc⟩
  · rw [he] at h
    cases h
  · rw [hs] at h
    cases h
  · rw [hc] at h ⊢
    cases h
    exact ⟨hi, rfl, rfl⟩

/-- Nothing is bound on the client without need, nor where that is forbidden. -/
theorem obstacle_of_bindShape_client {b : Shape}
    (h : (bindShape config store s owner).1.result = .ok ⟨b, .client⟩) :
    config.policy ≠ .forbid ∧ ∃ o, (Server.obstacles store .root s).head? = some o := by
  rw [result_bindShape, outcome] at h
  split at h
  · cases h
  · cases h
  case h_3 o _ ho =>
    split at h
    · cases h
    case isFalse hp => exact ⟨hp, o, ho⟩

theorem eq_of_bindShape_error {e : Error}
    (h : (bindShape config store s owner).1.result = .error e) :
    (bindShape config store s owner).2 = owner := by
  rcases bindShape_cases config store s owner with
    ⟨-, -, ha⟩ | ⟨-, -, steps, hs⟩ | ⟨-, steps, hc⟩
  · exact ha
  · rw [hs] at h
    cases h
  · rw [hc] at h
    cases h

/-- A bind that is refused changes nothing, and nothing refuses a client pass after the check. -/
theorem bindShape_atomic (config : Config) (store : Store) (s : Shape) (owner : Select) :
    (∀ e, (bindShape config store s owner).1.result = .error e →
      (bindShape config store s owner).2 = owner) ∧
    (check owner s = .ok () → ∃ bound, (Client.shape store s owner).1.result = .ok bound) := by
  constructor
  · intro e he
    exact eq_of_bindShape_error he
  · intro hc
    have hi : Intact owner s := (check_eq_ok_iff owner s).mp hc
    obtain ⟨steps, hs⟩ := client_returns store hi
    exact ⟨clientBound store owner s, by rw [hs]⟩

/-- A select of customers that also projects their keys. -/
def customers : Select :=
  ((Select.ofEntity ⟨1⟩ ⟨"Customer", "c", [("Id", .int64), ("Name", .string)]⟩).project
    (.column "c" "Id" .int64) .int64).2

def customerView (label : Shape) : Shape :=
  .memberInit "View"
    (.named [(⟨"View", "Id"⟩, .column "c" "Id" .int64),
      (⟨"View", "Key"⟩, .column "c" "Id" .int64)])
    [(⟨"View", "Customer"⟩, .entity "Customer" (customers.buffer .root)),
      (⟨"View", "Label"⟩, label)]

abbrev standardStore : Store := StoreFunctions.standard.fragment?

/-- A label that the standard store evaluates. -/
def upperName : Shape := .call "Upper" [.column "c" "Name" .string] .string

/-- A label for the client alone. -/
def localName : Shape :=
  .call "Localize" [.column "c" "Name" .string, .parameter ⟨"culture", .object "Culture"⟩] .string

/-- The orders of a customer, read from the rows of another query. -/
def foreignOrders : Shape :=
  .attach (.column "c" "Id" .int64) "Orders" (.entity "Order" ⟨⟨2⟩, .address .root, .valueBuffer⟩)

theorem bindShape_atomic_foreignOrders :
    (bindShape {} standardStore (customerView foreignOrders) customers).1.result =
        .error (.foreignBuffer ⟨1⟩ ⟨2⟩) ∧
      (bindShape {} standardStore (customerView foreignOrders) customers).2 = customers ∧
      check customers (customerView localName) = .ok () ∧
      ∃ bound, (Client.shape standardStore (customerView localName) customers).1.result =
        .ok bound := by
  have hf := (bindShape_atomic {} standardStore (customerView foreignOrders) customers).1
  have hl := (bindShape_atomic {} standardStore (customerView localName) customers).2
  exact ⟨rfl, hf _ rfl, rfl, hl rfl⟩

end QueryShaping.Binding
