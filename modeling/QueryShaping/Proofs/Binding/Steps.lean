import QueryShaping.Proofs.Binding.Calls

/-!
The steps of the passes. What holds of single steps and is kept when runs are put together holds of
every server pass (`Server.Composes.shape`). Main statements: a server pass only asks, records and
meets nodes outside the store (`Server.within_shape`), a client pass only asks, hands out slots and
defers parameters (`Client.within_shape`), whatever the owner does, so that a bind falls back at most
once (`exists_fellBack`, `fellBack?_eq_none`).
-/

namespace QueryShaping

namespace Step

/-- Steps that a server pass takes. -/
def ofServer : Step → Bool
  | asked _ | recorded .. | outsideStore .. => true
  | started .. | boundOnServer .. | fellBack .. | projected .. | buffered .. | deferred _
  | boundOnClient _ => false

/-- Steps that a client pass takes. -/
def ofClient : Step → Bool
  | asked _ | projected .. | buffered .. | deferred _ => true
  | started .. | recorded .. | outsideStore .. | boundOnServer .. | fellBack ..
  | boundOnClient _ => false

/-- The node for which a bind fell back, with its path. -/
def fellBack? : Step → Option (Kind × Address)
  | fellBack kind path => some (kind, path)
  | _ => none

theorem fellBack?_of_ofServer {step : Step} (h : step.ofServer) : step.fellBack? = none := by
  cases step <;> first | rfl | cases h

theorem fellBack?_of_ofClient {step : Step} (h : step.ofClient) : step.fellBack? = none := by
  cases step <;> first | rfl | cases h

end Step

namespace Trace

variable {ε α β : Type} {P : Step → Prop}

/-- All steps of the run have a property. -/
def Within (P : Step → Prop) (t : Trace ε α) : Prop := ∀ step ∈ t.steps, P step

theorem within_pure (x : α) : Within P (pure x : Trace ε α) := List.forall_mem_nil P

theorem within_stop (e : ε) : Within P (stop e : Trace ε α) := List.forall_mem_nil P

theorem within_tell {step : Step} (h : P step) : Within P (tell step : Trace ε Unit) :=
  List.forall_mem_singleton.mpr h

theorem Within.bind {t : Trace ε α} {f : α → Trace ε β} (ht : t.Within P)
    (hf : ∀ x, (f x).Within P) : (t >>= f).Within P := by
  cases hr : t.result with
  | ok x =>
    rw [bind_of_ok hr]
    exact List.forall_mem_append.mpr ⟨ht, hf x⟩
  | error e =>
    rw [bind_of_error hr]
    exact ht

theorem Within.map {t : Trace ε α} (f : α → β) (ht : t.Within P) :
    Within P (do return f (← t)) :=
  ht.bind fun x => within_pure (f x)

end Trace

namespace Pass

variable {σ ε α β : Type} {P : Step → Prop}

/-- All steps of the run have a property, from whatever state it starts. -/
def Within (P : Step → Prop) (p : Pass σ ε α) : Prop := ∀ s, (p s).1.Within P

theorem within_pure (x : α) : Within P (pure x : Pass σ ε α) := fun _ => Trace.within_pure x

theorem within_stop (e : ε) : Within P (stop e : Pass σ ε α) := fun _ => Trace.within_stop e

theorem within_tell {step : Step} (h : P step) : Within P (tell step : Pass σ ε Unit) :=
  fun _ => Trace.within_tell h

theorem Within.bind {p : Pass σ ε α} {f : α → Pass σ ε β} (hp : p.Within P)
    (hf : ∀ x, (f x).Within P) : (p >>= f).Within P := by
  intro s
  have hs := hp s
  rcases h : p s with ⟨⟨steps, e | x⟩, after⟩
  · rw [h] at hs
    rw [bind_of_error h]
    exact hs
  · rw [h] at hs
    rw [bind_of_ok h]
    exact List.forall_mem_append.mpr ⟨hs, hf x after⟩

theorem Within.map {p : Pass σ ε α} (f : α → β) (hp : p.Within P) :
    Within P (do return f (← p)) :=
  hp.bind fun x => within_pure (f x)

end Pass

namespace Binding

variable {σ : Type} [Owner σ]

namespace Server

open Trace

/-- A property of the single steps of a pass that is kept when runs are put one after the other. -/
structure Composes (P : {α : Type} → Trace Obstacle α → Prop) : Prop where
  pure : ∀ {α : Type} (x : α), P (pure x : Trace Obstacle α)
  asked : ∀ s, P (tell (.asked s) : Trace Obstacle Unit)
  recorded : ∀ path f (r : Reference), P (⟨[.recorded path f], .ok r⟩ : Trace Obstacle Reference)
  outside : ∀ {α : Type} kind path, P (outsideStore kind path : Trace Obstacle α)
  defect : ∀ {α : Type} e, P (stop (.defect e) : Trace Obstacle α)
  bind : ∀ {α β : Type} {t : Trace Obstacle α} {f : α → Trace Obstacle β},
    P t → (∀ x, P (f x)) → P (t >>= f)

section composes

variable {P : {α : Type} → Trace Obstacle α → Prop} (hP : Composes P) (owner : σ) (store : Store)
include hP

theorem Composes.map {α β : Type} {t : Trace Obstacle α} (f : α → β) (ht : P t) :
    P (do return f (← t)) :=
  hP.bind ht fun x => hP.pure (f x)

theorem Composes.leaf (path : Address) (s : Shape) : P (leaf owner store path s) := by
  refine hP.bind (hP.asked s) fun _ => ?_
  cases store s with
  | some f => exact hP.map Shape.reference (hP.recorded path f _)
  | none => exact hP.outside s.kind path

theorem Composes.entity (path : Address) (type : String) (buffer : Reference) :
    P (entity owner path type buffer) := by
  have hl : ∀ x : Except Error Fragment, P (Obstacle.lift x)
    | .ok f => hP.pure f
    | .error e => hP.defect e
  exact hP.bind (hl _) fun f => hP.map (Shape.entity type) (hP.recorded path f _)

mutual
theorem Composes.shape : ∀ (path : Address) (s : Shape), P (shape owner store path s)
  | path, .construct type args => hP.map (Shape.construct type) (Composes.arguments path args)
  | path, .memberInit type args assignments =>
    hP.bind (Composes.arguments path args) fun args =>
      hP.map (Shape.memberInit type args) (Composes.fields path assignments)
  | path, .entity type buffer => hP.entity owner path type buffer
  | path, .attach .. => hP.outside .attach path
  | _, .group p => hP.pure (Shape.group p)
  | path, .parameter p => by
    rw [Server.shape]
    split
    · exact hP.pure (Shape.parameter p)
    · exact hP.leaf owner store path (.parameter p)
  | path, .constant .. | path, .column .. | path, .binary .. | path, .call .. =>
    hP.leaf owner store path _
  | _, .reference _ | _, .lookup _ => hP.defect _
theorem Composes.arguments : ∀ (path : Address) (args : Args Shape),
    P (arguments owner store path args)
  | _, .positional [] => hP.pure (Args.positional [])
  | path, .positional (_ :: _) => hP.outside .construct path
  | path, .named fs => hP.map Args.named (Composes.fields path fs)
theorem Composes.fields : ∀ (path : Address) (fs : List (Member × Shape)),
    P (fields owner store path fs)
  | _, [] => hP.pure []
  | path, (m, s) :: rest =>
    hP.bind (Composes.shape (path.child m) s) fun s =>
      hP.map ((m, s) :: ·) (Composes.fields path rest)
end

end composes

theorem composes_ofServer : Composes fun t => t.Within (Step.ofServer ·) where
  pure := within_pure
  asked _ := within_tell rfl
  recorded _ _ _ := List.forall_mem_singleton.mpr rfl
  outside _ _ := List.forall_mem_singleton.mpr rfl
  defect _ := within_stop _
  bind := Within.bind

theorem within_shape (owner : σ) (store : Store) (path : Address) (s : Shape) :
    (shape owner store path s).Within (Step.ofServer ·) :=
  composes_ofServer.shape owner store path s

end Server

namespace Client

open Pass

variable (store : Store)

theorem within_project (kind : Kind) (f : Fragment) (type : DataType) :
    Within (Step.ofClient ·) (project kind f type : Pass σ Error Shape) :=
  fun _ => List.forall_mem_singleton.mpr rfl

theorem within_entity (type : String) (buffer : Reference) :
    Within (Step.ofClient ·) (entity type buffer : Pass σ Error Shape) := by
  intro o
  rcases h : Owner.projectBuffer o buffer with ⟨_ | _, after⟩
  · simp only [entity, h]
    exact Trace.within_stop _
  · simp only [entity, h]
    exact List.forall_mem_singleton.mpr rfl

omit [Owner σ] in
theorem within_asked (s : Shape) :
    Within (Step.ofClient ·) (tell (.asked s) : Pass σ Error Unit) :=
  within_tell rfl

theorem within_scalar (s : Shape) {rest : Pass σ Error Shape}
    (h : Within (Step.ofClient ·) rest) : Within (Step.ofClient ·) (scalar store s rest) := by
  refine (within_asked s).bind fun _ => ?_
  cases store s with
  | some f => exact within_project s.kind f s.type
  | none => exact h

omit [Owner σ] in
theorem within_defer (p : Parameter) :
    Within (Step.ofClient ·) (defer p : Pass σ Error Shape) := by
  have hd : Within (Step.ofClient ·) (tell (.deferred p) : Pass σ Error Unit) := within_tell rfl
  exact hd.bind fun _ => within_pure (Shape.lookup p)

mutual
theorem within_shape : ∀ s : Shape,
    Within (Step.ofClient ·) (shape store s : Pass σ Error Shape)
  | .construct type args => (within_arguments args).map (Shape.construct type)
  | .memberInit type args assignments =>
    (within_arguments args).bind fun args =>
      (within_fields assignments).map (Shape.memberInit type args)
  | .entity type buffer => within_entity type buffer
  | .attach e navigation value =>
    (within_shape e).bind fun e => (within_shape value).map (Shape.attach e navigation)
  | .group p => within_pure (Shape.group p)
  | .parameter p => by
    rw [shape]
    split
    · exact within_pure (Shape.parameter p)
    · exact within_scalar store _ (within_defer p)
  | .constant .. | .column .. => within_scalar store _ (within_pure _)
  | .binary left op right type => within_scalar store (.binary left op right type)
    ((within_shape left).bind fun left => (within_shape right).map (Shape.binary left op · type))
  | .call function args type => within_scalar store (.call function args type)
    ((within_shapes args).map (Shape.call function · type))
  | .reference _ | .lookup _ => within_stop _
theorem within_arguments : ∀ args : Args Shape,
    Within (Step.ofClient ·) (arguments store args : Pass σ Error (Args Shape))
  | .positional values => (within_shapes values).map Args.positional
  | .named fs => (within_fields fs).map Args.named
theorem within_shapes : ∀ ss : List Shape,
    Within (Step.ofClient ·) (shapes store ss : Pass σ Error (List Shape))
  | [] => within_pure []
  | s :: rest => (within_shape s).bind fun s => (within_shapes rest).map (s :: ·)
theorem within_fields : ∀ fs : List (Member × Shape),
    Within (Step.ofClient ·) (fields store fs : Pass σ Error (List (Member × Shape)))
  | [] => within_pure []
  | (m, s) :: rest => (within_shape s).bind fun s => (within_fields rest).map ((m, s) :: ·)
end

end Client

section bind

variable {config : Config} {store : Store} {s : Shape} {owner : Select}

/-- Up to the end of the server pass nothing has fallen back. -/
theorem fellBack?_attempt (store : Store) (s : Shape) (owner : Select) :
    ∀ step ∈ .started owner.id s.kind :: (Server.shape owner store .root s).steps,
      step.fellBack? = none := by
  intro step hm
  rcases List.mem_cons.mp hm with rfl | hm
  · rfl
  · exact Step.fellBack?_of_ofServer (Server.within_shape owner store .root s step hm)

/-- After an obstacle a bind goes through the shape again, on the client, unless that is
forbidden. -/
theorem steps_of_obstacle (hi : Intact owner s) {o : Kind × Address}
    (ho : (Server.obstacles store .root s).head? = some o) :
    ∃ steps, Client.shape store s owner =
        (⟨steps, .ok (clientBound store owner s)⟩, projected store owner s) ∧
      (bindShape config store s owner).1.steps =
        .started owner.id s.kind :: (Server.shape owner store .root s).steps ++
          if config.policy = .forbid then []
          else .fellBack o.1 o.2 :: (steps ++ [.boundOnClient owner.id]) := by
  have hr : (Server.shape owner store .root s).result = .error (.outsideStore o.1 o.2) :=
    Server.shape_stops s .root hi o ho
  obtain ⟨steps, hc⟩ := client_returns store hi
  refine ⟨steps, hc, ?_⟩
  rw [bindShape_of_check config store ((check_eq_ok_iff owner s).mpr hi)]
  simp only [conclude, hr]
  cases config.policy with
  | forbid => rfl
  | allow | warn =>
    simp only
    rw [fallBack_of_ok hc]
    rfl

/-- A bind that ends on the client goes through the shape twice. -/
theorem steps_of_client {b : Shape}
    (h : (bindShape config store s owner).1.result = .ok ⟨b, .client⟩) :
    ∃ o steps after, (Server.obstacles store .root s).head? = some o ∧
      Client.shape store s owner = (⟨steps, .ok b⟩, after) ∧
      (bindShape config store s owner).1.steps =
        .started owner.id s.kind :: (Server.shape owner store .root s).steps ++
          .fellBack o.1 o.2 :: (steps ++ [.boundOnClient owner.id]) := by
  obtain ⟨hi, rfl, -⟩ := eq_of_bindShape_client h
  obtain ⟨hp, o, ho⟩ := obstacle_of_bindShape_client h
  obtain ⟨steps, hc, hs⟩ := @steps_of_obstacle config store s owner hi o ho
  rw [if_neg hp] at hs
  exact ⟨o, steps, _, ho, hc, hs⟩

/-- A bind that ends on the client falls back once, for the first obstacle. -/
theorem exists_fellBack {b : Shape}
    (h : (bindShape config store s owner).1.result = .ok ⟨b, .client⟩) :
    ∃ o before after, (Server.obstacles store .root s).head? = some o ∧
      (bindShape config store s owner).1.steps = before ++ .fellBack o.1 o.2 :: after ∧
      ∀ step ∈ before ++ after, step.fellBack? = none := by
  obtain ⟨o, steps, after, ho, hc, hs⟩ := steps_of_client h
  refine ⟨o, _, _, ho, hs, fun step hm => ?_⟩
  have hw := Client.within_shape store s owner
  rw [hc] at hw
  rcases List.mem_append.mp hm with hm | hm
  · exact fellBack?_attempt store s owner step hm
  · rcases List.mem_append.mp hm with hm | hm
    · exact Step.fellBack?_of_ofClient (hw step hm)
    · rw [List.mem_singleton.mp hm]
      rfl

/-- Any other bind does not fall back. -/
theorem fellBack?_eq_none
    (h : ∀ b, (bindShape config store s owner).1.result ≠ .ok ⟨b, .client⟩) :
    ∀ step ∈ (bindShape config store s owner).1.steps, step.fellBack? = none := by
  have ha := fellBack?_attempt store s owner
  cases hd : s.nodes.findSome? (defect? owner) with
  | some e =>
    rw [bindShape_of_defect config store hd]
    exact List.forall_mem_nil _
  | none =>
    have hi : Intact owner s := List.findSome?_eq_none_iff.mp hd
    rw [bindShape_of_check config store ((check_eq_ok_iff owner s).mpr hi)]
    cases ho : (Server.obstacles store .root s).head? with
    | none =>
      have hr := Server.shape_returns s .root hi (List.head?_eq_none_iff.mp ho)
      simp only [conclude, hr.1]
      exact List.forall_mem_append.mpr ⟨ha, List.forall_mem_singleton.mpr rfl⟩
    | some o =>
      have hr : (Server.shape owner store .root s).result = .error (.outsideStore o.1 o.2) :=
        Server.shape_stops s .root hi o ho
      have hp : config.policy = .forbid := by
        by_contra hp
        obtain ⟨steps, hc⟩ := bindShape_client hi ho hp
        exact h _ (by rw [hc])
      simp only [conclude, hr, hp]
      exact List.forall_mem_append.mpr ⟨ha, List.forall_mem_nil _⟩

end bind

end Binding

end QueryShaping
