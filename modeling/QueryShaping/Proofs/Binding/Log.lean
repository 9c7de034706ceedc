import QueryShaping.Proofs.Binding.Settings
import QueryShaping.Proofs.Select.Mapping

/-!
The log of a bind. A client pass takes one step for each slot that the shape it returns refers to, in
order (`Client.tells_shape`), and a server pass that meets an obstacle takes no step after it
(`Server.composes_endsOutside`). Main statement: what the log tells of slots, members and obstacles
is what the bind did (`bindShape_log`).
-/

namespace QueryShaping

namespace Event

def field? (e : Event) (name : String) : Option Detail := e.fields.lookup name

/-- The event tells of a slot that was handed out. -/
def tellsSlot (e : Event) : Bool :=
  e.message = "projected value buffer" || e.message = "bound projection slot"

/-- The event tells of a fragment that was recorded. -/
def tellsMember (e : Event) : Bool := e.message = "bound projection member"

/-- The event tells of a node that the store cannot evaluate. -/
def tellsObstacle (e : Event) : Bool :=
  e.message = "expression cannot be evaluated on the server"

/-- The event that tells of a node which the store cannot evaluate. -/
def obstacle (kind : Kind) (path : Address) : Event :=
  ⟨.debug, "expression cannot be evaluated on the server",
    [("node", .text kind.name), ("member", .text path.text)]⟩

end Event

namespace Step

/-- The slot that was handed out. -/
def slot? : Step → Option Nat
  | projected _ _ slot | buffered _ slot => some slot
  | started .. | asked _ | recorded .. | outsideStore .. | boundOnServer .. | fellBack ..
  | deferred _ | boundOnClient _ => none

/-- The node that the store cannot evaluate, with its path. -/
def outside? : Step → Option (Kind × Address)
  | outsideStore kind path => some (kind, path)
  | started .. | asked _ | recorded .. | boundOnServer .. | fellBack .. | projected .. | buffered ..
  | deferred _ | boundOnClient _ => none

theorem slot?_of_ofServer {step : Step} (h : step.ofServer) : step.slot? = none := by
  cases step <;> first | rfl | cases h

theorem outside?_of_ofClient {step : Step} (h : step.ofClient) : step.outside? = none := by
  cases step <;> first | rfl | cases h

theorem recorded?_of_ofClient {step : Step} (h : step.ofClient) : step.recorded? = none := by
  cases step <;> first | rfl | cases h

section events

variable {γ δ : Type} {p : Event → Bool} {g : Event → δ} {o : Step → Option γ} {h : γ → δ}
  {config : Config}

/-- The events of every step show, of what is looked for, what the step has of it. -/
def Shows (config : Config) (p : Event → Bool) (g : Event → δ) (o : Step → Option γ) (h : γ → δ) :
    Prop :=
  ∀ step : Step, ((step.events config).filter p).map g = (o step).toList.map h

theorem Shows.flatMap (hs : Shows config p g o h) (steps : List Step) :
    ((steps.flatMap (events config)).filter p).map g = (steps.filterMap o).map h := by
  induction steps with
  | nil => rfl
  | cons step steps ih =>
    rw [List.flatMap_cons, List.filter_append, List.map_append, hs step, ih]
    cases ho : o step <;> simp [ho]

theorem Shows.eq_false (hs : Shows config p g o h) {steps : List Step}
    (hn : ∀ step ∈ steps, o step = none) : ∀ e ∈ steps.flatMap (events config), p e = false := by
  have hm := hs.flatMap steps
  rw [List.filterMap_eq_nil_iff.mpr hn, List.map_nil, List.map_eq_nil_iff,
    List.filter_eq_nil_iff] at hm
  exact fun e he => Bool.eq_false_iff.mpr (hm e he)

variable (config)

theorem shows_slot :
    Shows config Event.tellsSlot (·.field? "slot") slot? fun i => some (.count i) := by
  rcases config with ⟨policy, sensitive⟩
  intro step
  cases step <;> cases policy <;> cases sensitive <;> rfl

theorem shows_recorded :
    Shows config Event.tellsMember (fun e => (e.field? "member", e.field? "depth")) recorded?
      fun e => (some (.text e.1.text), some (.count e.1.depth)) := by
  rcases config with ⟨policy, sensitive⟩
  intro step
  cases step <;> cases policy <;> cases sensitive <;> rfl

theorem shows_outside :
    Shows config Event.tellsObstacle id outside? fun o => Event.obstacle o.1 o.2 := by
  rcases config with ⟨policy, sensitive⟩
  intro step
  cases step <;> cases policy <;> cases sensitive <;> rfl

end events

end Step

namespace Binding

section tells

variable {σ α β : Type} {p : Pass σ Error α} {f : α → Pass σ Error β} {P : α → List Nat → Prop}
  {Q : β → List Nat → Prop}

/-- What holds of the value that a run ends with and of the slots that its steps tell of. -/
def Tells (p : Pass σ Error α) (P : α → List Nat → Prop) : Prop :=
  ∀ o x, (p o).1.result = .ok x → P x ((p o).1.steps.filterMap Step.slot?)

theorem tells_pure {x : α} (h : P x []) : Tells (pure x : Pass σ Error α) P := by
  intro o y hy
  cases hy
  exact h

theorem tells_stop (e : Error) : Tells (Pass.stop e : Pass σ Error α) P := fun _ _ h => by cases h

theorem Tells.bind (hp : Tells p P)
    (hf : ∀ x slots, P x slots → Tells (f x) fun y more => Q y (slots ++ more)) :
    Tells (p >>= f) Q := by
  intro o y hy
  have hpo := hp o
  rcases h : p o with ⟨⟨steps, e | x⟩, after⟩
  · rw [Pass.bind_of_error h] at hy
    cases hy
  · rw [Pass.bind_of_ok h] at hy ⊢
    rw [h] at hpo
    rw [List.filterMap_append]
    exact hf x _ (hpo x rfl) after y hy

theorem Tells.map {g : α → β} (hp : Tells p P) (hq : ∀ x slots, P x slots → Q (g x) slots) :
    Tells (do return g (← p)) Q :=
  hp.bind fun x slots hx => tells_pure (by rw [List.append_nil]; exact hq x slots hx)

/-- A step that tells of no slot before the rest of a run. -/
theorem tells_silent {step : Step} (hs : step.slot? = none) {q : Pass σ Error α} (h : Tells q P) :
    Tells (do Pass.tell step; q) P := by
  intro o x hx
  have hq := h o x hx
  rw [Pass.bind_tell]
  rwa [List.filterMap_cons_none hs]

end tells

/-- The references read the given slots, in order. -/
def ReadSlots (refs : List Reference) (slots : List Nat) : Prop :=
  refs.map Reference.target = slots.map .slot

theorem ReadSlots.append {refs more : List Reference} {slots others : List Nat}
    (h : ReadSlots refs slots) (h' : ReadSlots more others) :
    ReadSlots (refs ++ more) (slots ++ others) := by
  rw [ReadSlots, List.map_append, List.map_append, h, h']

namespace Client

variable {σ : Type} [Owner σ] {store : Store}

theorem tells_project (kind : Kind) (f : Fragment) (type : DataType) :
    Tells (project kind f type : Pass σ Error Shape) fun b slots => ReadSlots b.references slots := by
  intro o x hx
  cases hx
  rfl

theorem tells_entity (type : String) (buffer : Reference) :
    Tells (entity type buffer : Pass σ Error Shape) fun b slots => ReadSlots b.references slots := by
  intro o x hx
  rcases h : Owner.projectBuffer o buffer with ⟨_ | i, after⟩
  · simp only [entity, h] at hx
    cases hx
  · simp only [entity, h] at hx ⊢
    cases hx
    rfl

theorem tells_scalar {s : Shape} {rest : Pass σ Error Shape}
    (h : Tells rest fun b slots => ReadSlots b.references slots) :
    Tells (scalar store s rest) fun b slots => ReadSlots b.references slots := by
  refine tells_silent (show Step.slot? (.asked s) = none from rfl) ?_
  cases store s with
  | some f => exact tells_project s.kind f s.type
  | none => exact h

variable (store)

-- The slots of a shape are those of its parts, in the order in which the pass goes through them.
mutual
theorem tells_shape : ∀ s : Shape, Tells (shape store s : Pass σ Error Shape)
    fun b slots => ReadSlots b.references slots
  | .construct type args => (tells_arguments args).map fun _ _ ha => ha
  | .memberInit type args assignments =>
    (tells_arguments args).bind fun _ _ ha => (tells_fields assignments).map fun _ _ hf =>
      ha.append hf
  | .entity type buffer => tells_entity type buffer
  | .attach e navigation value =>
    (tells_shape e).bind fun _ _ he => (tells_shape value).map fun _ _ hv => he.append hv
  | .group p => tells_pure rfl
  | .parameter p => by
    rw [shape]
    split
    · exact tells_pure rfl
    · exact tells_scalar (tells_silent rfl (tells_pure rfl))
  | .constant .. | .column .. => tells_scalar (tells_pure rfl)
  | .binary left op right type =>
    tells_scalar ((tells_shape left).bind fun _ _ hl => (tells_shape right).map fun _ _ hr =>
      hl.append hr)
  | .call function args type => tells_scalar ((tells_shapes args).map fun _ _ ha => ha)
  | .reference _ | .lookup _ => tells_stop _
theorem tells_arguments : ∀ args : Args Shape,
    Tells (arguments store args : Pass σ Error (Args Shape))
      fun b slots => ReadSlots (Shape.referencesArgs b) slots
  | .positional values => (tells_shapes values).map fun _ _ hv => hv
  | .named fs => (tells_fields fs).map fun _ _ hf => hf
theorem tells_shapes : ∀ ss : List Shape, Tells (shapes store ss : Pass σ Error (List Shape))
    fun b slots => ReadSlots (Shape.referencesAll b) slots
  | [] => tells_pure rfl
  | s :: rest =>
    (tells_shape s).bind fun _ _ hs => (tells_shapes rest).map fun _ _ hr => hs.append hr
theorem tells_fields : ∀ fs : List (Member × Shape),
    Tells (fields store fs : Pass σ Error (List (Member × Shape)))
      fun b slots => ReadSlots (Shape.referencesFields b) slots
  | [] => tells_pure rfl
  | (_, s) :: rest =>
    (tells_shape s).bind fun _ _ hs => (tells_fields rest).map fun _ _ hr => hs.append hr
end

end Client

namespace Server

/-- A run that returns meets no obstacle, and one that stops at an obstacle takes no step after it. -/
structure EndsOutside {α : Type} (t : Trace Obstacle α) : Prop where
  of_ok : ∀ x, t.result = .ok x → ∀ step ∈ t.steps, step.outside? = none
  of_outside : ∀ kind path, t.result = .error (.outsideStore kind path) →
    ∃ before, t.steps = before ++ [.outsideStore kind path] ∧ ∀ step ∈ before, step.outside? = none

theorem endsOutside_of_silent {α : Type} {t : Trace Obstacle α}
    (h : ∀ step ∈ t.steps, step.outside? = none)
    (hr : ∀ kind path, t.result ≠ .error (.outsideStore kind path)) : EndsOutside t :=
  ⟨fun _ _ => h, fun kind path he => absurd he (hr kind path)⟩

theorem EndsOutside.bind {α β : Type} {t : Trace Obstacle α} {f : α → Trace Obstacle β}
    (ht : EndsOutside t) (hf : ∀ x, EndsOutside (f x)) : EndsOutside (t >>= f) := by
  cases hr : t.result with
  | error e =>
    rw [Trace.bind_of_error hr]
    refine ⟨fun x hx => (by cases hx), fun kind path he => ht.of_outside kind path ?_⟩
    rw [hr, Except.error.inj he]
  | ok x =>
    have hs := ht.of_ok x hr
    rw [Trace.bind_of_ok hr]
    refine ⟨fun y hy => List.forall_mem_append.mpr ⟨hs, (hf x).of_ok y hy⟩, fun kind path he => ?_⟩
    obtain ⟨before, hb, hn⟩ := (hf x).of_outside kind path he
    exact ⟨t.steps ++ before, by simp only [hb, List.append_assoc],
      List.forall_mem_append.mpr ⟨hs, hn⟩⟩

theorem composes_endsOutside : Composes fun t => EndsOutside t where
  pure _ := endsOutside_of_silent (List.forall_mem_nil _) fun _ _ h => by cases h
  asked _ := endsOutside_of_silent (List.forall_mem_singleton.mpr rfl) fun _ _ h => by cases h
  recorded _ _ _ :=
    endsOutside_of_silent (List.forall_mem_singleton.mpr rfl) fun _ _ h => by cases h
  outside kind path := by
    refine ⟨fun _ h => (by cases h), fun _ _ h => ?_⟩
    cases h
    exact ⟨[], rfl, List.forall_mem_nil _⟩
  defect _ := endsOutside_of_silent (List.forall_mem_nil _) fun _ _ h => by cases h
  bind := EndsOutside.bind

end Server

section bind

variable {config : Config} {store : Store} {s b : Shape} {owner : Select}

theorem steps_of_server (h : (bindShape config store s owner).1.result = .ok ⟨b, .server⟩) :
    (bindShape config store s owner).1.steps =
      .started owner.id s.kind :: (Server.shape owner store .root s).steps ++
        [.boundOnServer owner.id (serverMapping store owner s).size] := by
  obtain ⟨hi, ho, -, -⟩ := eq_of_bindShape_server h
  obtain ⟨hr, hm⟩ := Server.shape_returns s .root hi ho
  rw [bindShape_of_check config store ((check_eq_ok_iff owner s).mpr hi)]
  simp only [conclude, hr, recordedMapping, hm]
  rfl

/-- After the first obstacle nothing is recorded, and no other obstacle is met. -/
theorem exists_outsideStore (hi : Intact owner s) {o : Kind × Address}
    (ho : (Server.obstacles store .root s).head? = some o) :
    ∃ before after, (bindShape config store s owner).1.steps =
        before ++ .outsideStore o.1 o.2 :: after ∧
      (∀ step ∈ before ++ after, step.outside? = none) ∧
      ∀ step ∈ after, step.recorded? = none := by
  have hr : (Server.shape owner store .root s).result = .error (.outsideStore o.1 o.2) :=
    Server.shape_stops s .root hi o ho
  obtain ⟨before, hb, hn⟩ :=
    (Server.composes_endsOutside.shape owner store .root s).of_outside o.1 o.2 hr
  obtain ⟨steps, hc, hs⟩ := @steps_of_obstacle config store s owner hi o ho
  have hw : ∀ step ∈ steps, step.ofClient := by
    have hw := Client.within_shape store s owner
    rwa [hc] at hw
  have ha : ∀ step ∈ if config.policy = .forbid then []
      else .fellBack o.1 o.2 :: (steps ++ [.boundOnClient owner.id]),
      step.outside? = none ∧ step.recorded? = none := by
    split
    · exact List.forall_mem_nil _
    · refine List.forall_mem_cons.mpr ⟨⟨rfl, rfl⟩, List.forall_mem_append.mpr
        ⟨fun step hm => ?_, List.forall_mem_singleton.mpr ⟨rfl, rfl⟩⟩⟩
      exact ⟨Step.outside?_of_ofClient (hw step hm), Step.recorded?_of_ofClient (hw step hm)⟩
  refine ⟨.started owner.id s.kind :: before, _, ?_, ?_, fun step hm => (ha step hm).2⟩
  · rw [hs, hb, List.cons_append, List.append_assoc]
    rfl
  · exact List.forall_mem_append.mpr
      ⟨List.forall_mem_cons.mpr ⟨rfl, hn⟩, fun step hm => (ha step hm).1⟩

theorem exists_obstacle (hi : Intact owner s)
    (h : ∀ b, (bindShape config store s owner).1.result ≠ .ok ⟨b, .server⟩) :
    ∃ o, (Server.obstacles store .root s).head? = some o := by
  cases ho : (Server.obstacles store .root s).head? with
  | some o => exact ⟨o, rfl⟩
  | none =>
    have hs : (bindShape config store s).Returns owner _ _ :=
      bindShape_server hi (List.head?_eq_none_iff.mp ho)
    obtain ⟨steps, hs⟩ := hs
    exact absurd (congrArg (·.1.result) hs) (h (serverBound owner s))

variable (config)

theorem slots_of_client (h : (bindShape config store s owner).1.result = .ok ⟨b, .client⟩) :
    ReadSlots b.references ((bindShape config store s owner).1.steps.filterMap Step.slot?) := by
  obtain ⟨o, steps, after, -, hc, hs⟩ := steps_of_client h
  have ht := Client.tells_shape store s owner b (by rw [hc])
  have ha : (Server.shape owner store .root s).steps.filterMap Step.slot? = [] :=
    List.filterMap_eq_nil_iff.mpr fun step hm =>
      Step.slot?_of_ofServer (Server.within_shape owner store .root s step hm)
  have hf : (bindShape config store s owner).1.steps.filterMap Step.slot? =
      steps.filterMap Step.slot? := by
    rw [hs, List.filterMap_append, List.filterMap_cons_none rfl, ha, List.nil_append,
      List.filterMap_cons_none rfl, List.filterMap_append]
    exact List.append_nil _
  rw [hf]
  rwa [hc] at ht

theorem recorded_of_server (h : (bindShape config store s owner).1.result = .ok ⟨b, .server⟩) :
    (bindShape config store s owner).1.recorded =
      Server.recordings store owner.behind? .root s := by
  obtain ⟨hi, ho, -, -⟩ := eq_of_bindShape_server h
  have hm := (Server.shape_returns s .root hi ho).2
  rw [Trace.recorded, steps_of_server h, List.filterMap_append, List.filterMap_cons_none rfl,
    ← hm]
  exact List.append_nil _

theorem targets_of_server (h : (bindShape config store s owner).1.result = .ok ⟨b, .server⟩) :
    b.references.map Reference.target =
      ((Server.recordings store owner.behind? .root s).map Prod.fst).map .address := by
  obtain ⟨hi, ho, rfl, -⟩ := eq_of_bindShape_server h
  have hr := congrArg (List.map Prod.snd) (Server.references_addressed s .root hi ho)
  rw [List.map_map, List.map_map] at hr
  rw [List.map_map]
  exact hr

end bind

/-- What the log of a bind tells. A bind that the check refuses leaves no log. On the client the
slots that it names are those that the references of the bound shape read, in order. On the server
it names the addresses that the references read, in order, and last how many there are, which is how
many are mapped. If the server pass comes to no end, one event tells where it stopped, and no
recording follows it. -/
theorem bindShape_log (config : Config) (store : Store) (s : Shape) (owner : Select) :
    let run := bindShape config store s owner
    let log := run.1.events config
    (∀ e, check owner s = .error e → log = []) ∧
    (∀ b, run.1.result = .ok ⟨b, .client⟩ → ∃ slots : List Nat,
      b.references.map Reference.target = slots.map .slot ∧
      (log.filter Event.tellsSlot).map (·.field? "slot") = slots.map fun i => some (.count i)) ∧
    (∀ b, run.1.result = .ok ⟨b, .server⟩ → ∃ addresses : List Address,
      b.references.map Reference.target = addresses.map .address ∧
      (log.filter Event.tellsMember).map (fun e => (e.field? "member", e.field? "depth")) =
        addresses.map (fun a => (some (.text a.text), some (.count a.depth))) ∧
      log.getLast? = some ⟨.debug, "shaper bound on the server",
        [("query", .query owner.id), ("members", .count addresses.toFinset.card)]⟩ ∧
      run.2.mapping.size = addresses.toFinset.card) ∧
    (check owner s = .ok () → (∀ b, run.1.result ≠ .ok ⟨b, .server⟩) →
      ∃ before kind path after, FirstObstacle store s kind path ∧
        log = before ++ Event.obstacle kind path :: after ∧
        (∀ e ∈ before ++ after, e.tellsObstacle = false) ∧
        ∀ e ∈ after, e.tellsMember = false) := by
  intro run log
  refine ⟨fun e he => ?_, fun b hb => ?_, fun b hb => ?_, fun hc hn => ?_⟩
  · have hr : run = (.stop e, owner) := by simp only [run, bindShape, he]
    show run.1.events config = []
    rw [hr]
    rfl
  · exact ⟨_, slots_of_client config hb, (Step.shows_slot config).flatMap run.1.steps⟩
  · obtain ⟨-, -, -, hs⟩ := eq_of_bindShape_server hb
    have hsize : (serverMapping store owner s).size =
        ((Server.recordings store owner.behind? .root s).map Prod.fst).toFinset.card :=
      OrderedMap.size_ofList _
    refine ⟨_, targets_of_server config hb, ?_, ?_, ?_⟩
    · have hl := (Step.shows_recorded config).flatMap run.1.steps
      rw [← recorded_of_server config hb, List.map_map]
      exact hl
    · show (run.1.steps.flatMap (Step.events config)).getLast? = _
      rw [steps_of_server hb, List.flatMap_append, ← hsize]
      exact List.getLast?_concat
    · rw [← hsize]
      exact congrArg (·.mapping.size) hs
  · have hi : Intact owner s := (check_eq_ok_iff owner s).mp hc
    obtain ⟨o, ho⟩ := exists_obstacle hi hn
    obtain ⟨before, after, hs, hout, hrec⟩ := @exists_outsideStore config store s owner hi o ho
    refine ⟨before.flatMap (Step.events config), o.1, o.2, after.flatMap (Step.events config),
      firstObstacle_of_head? ho, ?_, ?_, (Step.shows_recorded config).eq_false hrec⟩
    · show run.1.steps.flatMap (Step.events config) = _
      rw [hs, List.flatMap_append, List.flatMap_cons]
      rfl
    · rw [← List.flatMap_append]
      exact (Step.shows_outside config).eq_false hout

theorem bindShape_log_customerView :
    (bindShape {} standardStore (customerView foreignOrders) customers).1.events {} = [] ∧
      (∃ b, ∃ slots : List Nat,
        (bindShape {} standardStore (customerView localName) customers).1.result =
          .ok ⟨b, .client⟩ ∧ b.references.map Reference.target = slots.map .slot ∧
        (((bindShape {} standardStore (customerView localName) customers).1.events {}).filter
          Event.tellsSlot).map (·.field? "slot") = slots.map fun i => some (.count i)) ∧
      (∃ b, ∃ addresses : List Address,
        (bindShape {} standardStore (customerView upperName) customers).1.result =
          .ok ⟨b, .server⟩ ∧ b.references.map Reference.target = addresses.map .address ∧
        (bindShape {} standardStore (customerView upperName) customers).2.mapping.size =
          addresses.toFinset.card) ∧
      ∃ before kind path after, FirstObstacle standardStore (customerView localName) kind path ∧
        (bindShape { policy := .forbid } standardStore (customerView localName) customers).1.events
          { policy := .forbid } = before ++ Event.obstacle kind path :: after ∧
        ∀ e ∈ before ++ after, e.tellsObstacle = false := by
  obtain ⟨he, -, -, -⟩ := bindShape_log {} standardStore (customerView foreignOrders) customers
  obtain ⟨-, hc, -, -⟩ := bindShape_log {} standardStore (customerView localName) customers
  obtain ⟨-, -, hs, -⟩ := bindShape_log {} standardStore (customerView upperName) customers
  obtain ⟨-, -, -, ho⟩ :=
    bindShape_log { policy := .forbid } standardStore (customerView localName) customers
  obtain ⟨slots, ht, hl⟩ := hc _ rfl
  obtain ⟨addresses, ha, -, -, hm⟩ := hs _ rfl
  obtain ⟨before, kind, path, after, hf, hb, hn, -⟩ := ho rfl fun b hb => by cases hb
  exact ⟨he _ rfl, ⟨_, slots, rfl, ht, hl⟩, ⟨_, addresses, rfl, ha, hm⟩,
    before, kind, path, after, hf, hb, hn⟩

end Binding

end QueryShaping
