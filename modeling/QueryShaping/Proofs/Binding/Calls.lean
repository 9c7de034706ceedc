import QueryShaping.Proofs.Binding.Outcome

/-!
What a bind asks of an owner, whatever the owner answers. An owner that records its calls is bound
against like the owner itself (`bindShape_protocol`), so that its record shows the calls of every
bind: one for each reference of a shape that is bound on the client, in the same order, and at the
end one installation.
-/

namespace QueryShaping.Binding

variable {σ : Type} [Owner σ]

section alike

variable {τ : Type} [Owner τ]

/-- Two owners that answer every look-up alike. -/
structure Alike (o : σ) (o' : τ) : Prop where
  id : Owner.id o' = Owner.id o
  fragmentAt : ∀ a, Owner.fragmentAt o' a = Owner.fragmentAt o a

variable {o : σ} {o' : τ}

mutual
theorem check_alike (h : Alike o o') : ∀ s : Shape, check o' s = check o s
  | .construct _ args => checkArgs_alike h args
  | .memberInit _ args assignments => by
    rw [check, check, checkArgs_alike h args, checkFields_alike h assignments]
  | .entity type buffer => by
    simp only [check, checkEntity, h.id, h.fragmentAt]
  | .attach e _ value => by rw [check, check, check_alike h e, check_alike h value]
  | .binary left _ right _ => by rw [check, check, check_alike h left, check_alike h right]
  | .call _ args _ => checkAll_alike h args
  | .parameter _ | .group _ | .constant .. | .column .. | .reference _ | .lookup _ => rfl
theorem checkArgs_alike (h : Alike o o') : ∀ args : Args Shape, checkArgs o' args = checkArgs o args
  | .positional values => checkAll_alike h values
  | .named fields => checkFields_alike h fields
theorem checkAll_alike (h : Alike o o') : ∀ ss : List Shape, checkAll o' ss = checkAll o ss
  | [] => rfl
  | s :: rest => by rw [checkAll, checkAll, check_alike h s, checkAll_alike h rest]
theorem checkFields_alike (h : Alike o o') : ∀ fs : List (Member × Shape),
    checkFields o' fs = checkFields o fs
  | [] => rfl
  | (_, s) :: rest => by rw [checkFields, checkFields, check_alike h s, checkFields_alike h rest]
end

variable {store : Store}

theorem leaf_alike (h : Alike o o') (path : Address) (s : Shape) :
    Server.leaf o' store path s = Server.leaf o store path s := by
  simp only [Server.leaf, Server.record, h.id]

mutual
theorem server_alike (h : Alike o o') : ∀ (path : Address) (s : Shape),
    Server.shape o' store path s = Server.shape o store path s
  | path, .construct _ args => by rw [Server.shape, Server.shape, serverArgs_alike h path args]
  | path, .memberInit _ args assignments => by
    rw [Server.shape, Server.shape, serverArgs_alike h path args,
      serverFields_alike h path assignments]
  | path, .entity type buffer => by
    have hf : Owner.fragmentAt o' = Owner.fragmentAt o := funext h.fragmentAt
    simp only [Server.shape, Server.entity, Server.record, h.id, hf]
  | path, .parameter p => by rw [Server.shape, Server.shape, leaf_alike h]
  | path, .constant .. | path, .column .. | path, .binary .. | path, .call .. => leaf_alike h path _
  | _, .attach .. | _, .group _ | _, .reference _ | _, .lookup _ => rfl
theorem serverArgs_alike (h : Alike o o') : ∀ (path : Address) (args : Args Shape),
    Server.arguments o' store path args = Server.arguments o store path args
  | _, .positional [] | _, .positional (_ :: _) => rfl
  | path, .named fs => by
    rw [Server.arguments, Server.arguments, serverFields_alike h path fs]
theorem serverFields_alike (h : Alike o o') : ∀ (path : Address) (fs : List (Member × Shape)),
    Server.fields o' store path fs = Server.fields o store path fs
  | _, [] => rfl
  | path, (m, s) :: rest => by
    rw [Server.fields, Server.fields, server_alike h (path.child m) s,
      serverFields_alike h path rest]
end

theorem alike_recorded (o : σ) (changes : List Change) : Alike o (⟨o, changes⟩ : Recorded σ) :=
  ⟨rfl, fun _ => rfl⟩

end alike

/-- An owner is asked for a slot, grants one, and is another owner afterwards. The reference to the
slot has the id that the owner shows after a projection, and before that of a buffer. -/
inductive Grants : σ → Change → Reference → σ → Prop
  | project {o after : σ} {f : Fragment} {type : DataType} {i : Nat}
    (h : Owner.project o f type = (i, after)) :
    Grants o (.project f type) ⟨Owner.id after, .slot i, type⟩ after
  | projectBuffer {o after : σ} {buffer : Reference} {i : Nat}
    (h : Owner.projectBuffer o buffer = (.ok i, after)) :
    Grants o (.projectBuffer buffer) ⟨Owner.id o, .slot i, .valueBuffer⟩ after

/-- Calls that are granted one after the other, each with the reference to its slot. -/
inductive GrantsAll : σ → List Change → List Reference → σ → Prop
  | nil (o : σ) : GrantsAll o [] [] o
  | cons {o mid after : σ} {c : Change} {r : Reference} {calls : List Change}
    {refs : List Reference} (h : Grants o c r mid) (hs : GrantsAll mid calls refs after) :
    GrantsAll o (c :: calls) (r :: refs) after

/-- The calls of a bind that starts with the given owner, by its result and the owner it leaves. -/
inductive Protocol (owner : σ) : List Change → Except Error Bound → σ → Prop
  | server (s : Shape) (mapping : Mapping) :
    Protocol owner [.install mapping] (.ok ⟨s, .server⟩) (Owner.install owner mapping)
  | client {s : Shape} {calls : List Change} {mid : σ} (h : GrantsAll owner calls s.references mid) :
    Protocol owner (calls ++ [.install ∅]) (.ok ⟨s, .client⟩) (Owner.install mid ∅)
  | silent (e : Error) : Protocol owner [] (.error e) owner
  | refused {calls : List Change} {refs : List Reference} {mid after : σ} {buffer : Reference}
    {e : Error} (h : GrantsAll owner calls refs mid)
    (hr : Owner.projectBuffer mid buffer = (.error e, after)) :
    Protocol owner (calls ++ [.projectBuffer buffer]) (.error e) after

section grants

variable {o mid after : σ} {as bs calls : List Change} {rs us : List Reference}

theorem GrantsAll.append (h : GrantsAll o as rs mid) (h' : GrantsAll mid bs us after) :
    GrantsAll o (as ++ bs) (rs ++ us) after := by
  induction h with
  | nil => exact h'
  | cons hg _ ih => exact .cons hg (ih h')

theorem GrantsAll.install_notMem (h : GrantsAll o calls rs after) (mapping : Mapping) :
    .install mapping ∉ calls := by
  induction h with
  | nil => exact List.not_mem_nil
  | cons hg _ ih =>
    rw [List.mem_cons, not_or]
    refine ⟨?_, ih⟩
    rintro rfl
    cases hg

end grants

section follows

variable {α β : Type}

/-- Against a recording owner the run is the same, and it makes the given calls. -/
def Calls (p : Pass σ Error α) (q : Pass (Recorded σ) Error α) (o : σ) (calls : List Change) :
    Prop :=
  ∀ before, q ⟨o, before⟩ = ((p o).1, ⟨(p o).2, before ++ calls⟩)

/-- What came of the calls: all of them were granted and fit the value, or the last one was refused
and its error is the result. -/
def Answered (Q : α → List Reference → Prop) (o : σ) (calls : List Change) :
    Except Error α → σ → Prop
  | .ok x, after => ∃ refs, GrantsAll o calls refs after ∧ Q x refs
  | .error e, after => ∃ granted refs mid buffer, calls = granted ++ [.projectBuffer buffer] ∧
      GrantsAll o granted refs mid ∧ Owner.projectBuffer mid buffer = (.error e, after)

/-- A pass, and the same pass against recording owners, with what holds of a value and of the
references that were granted on the way to it. -/
def Follows (p : Pass σ Error α) (q : Pass (Recorded σ) Error α) (Q : α → List Reference → Prop) :
    Prop :=
  ∀ o, ∃ calls, Calls p q o calls ∧ Answered Q o calls (p o).1.result (p o).2

variable {p : Pass σ Error α} {q : Pass (Recorded σ) Error α} {f : α → Pass σ Error β}
  {g : α → Pass (Recorded σ) Error β} {P : α → List Reference → Prop}
  {Q : β → List Reference → Prop}

theorem follows_pure {x : α} (h : P x []) : Follows (pure x : Pass σ Error α) (pure x) P := by
  intro o
  refine ⟨[], fun before => ?_, [], .nil o, h⟩
  rw [List.append_nil]
  rfl

theorem follows_tell (step : Step) :
    Follows (Pass.tell step : Pass σ Error Unit) (Pass.tell step) fun _ refs => refs = [] := by
  intro o
  refine ⟨[], fun before => ?_, [], .nil o, rfl⟩
  rw [List.append_nil]
  rfl

theorem Follows.bind (hp : Follows p q P)
    (hf : ∀ x refs, P x refs → Follows (f x) (g x) fun y more => Q y (refs ++ more)) :
    Follows (p >>= f) (q >>= g) Q := by
  intro o
  obtain ⟨calls, hc, ha⟩ := hp o
  rcases hpo : p o with ⟨⟨steps, result⟩, after⟩
  simp only [Calls, hpo] at hc ha
  cases result with
  | error e =>
    rw [Pass.bind_of_error hpo]
    refine ⟨calls, fun before => ?_, ha⟩
    rw [Pass.bind_of_error (hc before), Pass.bind_of_error hpo]
  | ok x =>
    obtain ⟨refs, hg, hx⟩ := ha
    obtain ⟨calls', hc', ha'⟩ := hf x refs hx after
    rw [Pass.bind_of_ok hpo]
    refine ⟨calls ++ calls', fun before => ?_, ?_⟩
    · rw [Pass.bind_of_ok (hc before), Pass.bind_of_ok hpo, hc', List.append_assoc]
    · cases hr : (f x after).1.result with
      | ok y =>
        simp only [hr] at ha' ⊢
        obtain ⟨refs', hg', hy⟩ := ha'
        exact ⟨refs ++ refs', hg.append hg', hy⟩
      | error e =>
        simp only [hr] at ha' ⊢
        obtain ⟨granted, refs', mid, buffer, rfl, hg', he⟩ := ha'
        exact ⟨calls ++ granted, refs ++ refs', mid, buffer, by rw [List.append_assoc],
          hg.append hg', he⟩

theorem Follows.map {h : α → β} (hp : Follows p q P) (hq : ∀ x refs, P x refs → Q (h x) refs) :
    Follows (do return h (← p)) (do return h (← q)) Q :=
  hp.bind fun x refs hx => follows_pure (by rw [List.append_nil]; exact hq x refs hx)

end follows

section client

variable {store : Store} {owner : σ}

theorem follows_project (kind : Kind) (f : Fragment) (type : DataType) :
    Follows (Client.project kind f type : Pass σ Error Shape) (Client.project kind f type)
      fun s refs => s.references = refs := by
  intro o
  rcases h : Owner.project o f type with ⟨i, after⟩
  have hr : ∀ before, Owner.project (⟨o, before⟩ : Recorded σ) f type =
      (i, ⟨after, before ++ [.project f type]⟩) := fun before => by simp only [Owner.project, h]
  refine ⟨[.project f type], fun before => ?_, ?_⟩
  · simp only [Client.project, h, hr]
    rfl
  · simp only [Client.project, h]
    exact ⟨_, .cons (.project h) (.nil after), rfl⟩

theorem follows_entity (type : String) (buffer : Reference) :
    Follows (Client.entity type buffer : Pass σ Error Shape) (Client.entity type buffer)
      fun s refs => s.references = refs := by
  intro o
  rcases h : Owner.projectBuffer o buffer with ⟨answer, after⟩
  have hr : ∀ before, Owner.projectBuffer (⟨o, before⟩ : Recorded σ) buffer =
      (answer, ⟨after, before ++ [.projectBuffer buffer]⟩) := fun before => by
    simp only [Owner.projectBuffer, h]
  refine ⟨[.projectBuffer buffer], fun before => ?_, ?_⟩
  · simp only [Client.entity, h, hr]
    cases answer <;> rfl
  · simp only [Client.entity, h]
    cases answer with
    | ok i => exact ⟨_, .cons (.projectBuffer h) (.nil after), rfl⟩
    | error e => exact ⟨[], [], o, buffer, rfl, .nil o, h⟩

theorem follows_scalar {s : Shape} {rest : Pass σ Error Shape} {rest' : Pass (Recorded σ) Error Shape}
    (h : Follows rest rest' fun s refs => s.references = refs) :
    Follows (Client.scalar store s rest) (Client.scalar store s rest')
      fun s refs => s.references = refs := by
  refine (follows_tell _).bind fun _ refs hr => ?_
  subst hr
  cases store s with
  | some f => exact follows_project s.kind f s.type
  | none => exact h

theorem follows_defer (p : Parameter) :
    Follows (Client.defer p : Pass σ Error Shape) (Client.defer p)
      fun s refs => s.references = refs :=
  (follows_tell _).bind fun _ _ hr => follows_pure (by subst hr; rfl)

theorem check_bind_eq_ok {x y : Except Error Unit} (h : (do x; y) = .ok ()) :
    x = .ok () ∧ y = .ok () := by
  cases x with
  | ok => exact ⟨rfl, h⟩
  | error e => cases h

variable (store)

-- Once the check of the whole shape has passed, no part of the shape stops the pass: only an owner
-- does, by refusing a value buffer. The owner of the check is not the one that answers the pass.
mutual
theorem client_follows : ∀ s : Shape, check owner s = .ok () →
    Follows (Client.shape store s : Pass σ Error Shape) (Client.shape store s)
      fun b refs => b.references = refs
  | .construct type args, hc => (arguments_follows args hc).map fun _ _ ha => ha
  | .memberInit type args assignments, hc => by
    obtain ⟨hca, hcf⟩ := check_bind_eq_ok hc
    refine (arguments_follows args hca).bind fun a as ha => ?_
    refine (fields_follows assignments hcf).map fun f fs hf => ?_
    rw [Shape.references, ha, hf]
  | .entity type buffer, _ => follows_entity type buffer
  | .attach e navigation value, hc => by
    obtain ⟨hce, hcv⟩ := check_bind_eq_ok hc
    refine (client_follows e hce).bind fun a as ha => ?_
    refine (client_follows value hcv).map fun v vs hv => ?_
    rw [Shape.references, ha, hv]
  | .parameter p, _ => by
    by_cases hp : p.type.isEnumerable
    · simp only [Client.shape, hp, if_true]
      exact follows_pure rfl
    · simp only [Client.shape, hp]
      exact follows_scalar (follows_defer p)
  | .group _, _ => follows_pure rfl
  | .constant .., _ | .column .., _ => follows_scalar (follows_pure rfl)
  | .binary left op right type, hc => by
    obtain ⟨hcl, hcr⟩ := check_bind_eq_ok hc
    refine follows_scalar ?_
    refine (client_follows left hcl).bind fun l ls hl => ?_
    refine (client_follows right hcr).map fun r rs hr => ?_
    rw [Shape.references, hl, hr]
  | .call function args type, hc =>
    follows_scalar ((shapes_follows args hc).map fun _ _ ha => ha)
  | .reference _, hc | .lookup _, hc => by cases hc
theorem arguments_follows : ∀ args : Args Shape, checkArgs owner args = .ok () →
    Follows (Client.arguments store args : Pass σ Error (Args Shape)) (Client.arguments store args)
      fun b refs => Shape.referencesArgs b = refs
  | .positional values, hc => (shapes_follows values hc).map fun _ _ hv => hv
  | .named fs, hc => (fields_follows fs hc).map fun _ _ hf => hf
theorem shapes_follows : ∀ ss : List Shape, checkAll owner ss = .ok () →
    Follows (Client.shapes store ss : Pass σ Error (List Shape)) (Client.shapes store ss)
      fun b refs => Shape.referencesAll b = refs
  | [], _ => follows_pure rfl
  | s :: rest, hc => by
    obtain ⟨hcs, hcr⟩ := check_bind_eq_ok hc
    refine (client_follows s hcs).bind fun b bs hb => ?_
    refine (shapes_follows rest hcr).map fun r rs hr => ?_
    rw [Shape.referencesAll, hb, hr]
theorem fields_follows : ∀ fs : List (Member × Shape), checkFields owner fs = .ok () →
    Follows (Client.fields store fs : Pass σ Error (List (Member × Shape))) (Client.fields store fs)
      fun b refs => Shape.referencesFields b = refs
  | [], _ => follows_pure rfl
  | (_, s) :: rest, hc => by
    obtain ⟨hcs, hcr⟩ := check_bind_eq_ok hc
    refine (client_follows s hcs).bind fun b bs hb => ?_
    refine (fields_follows rest hcr).map fun r rs hr => ?_
    rw [Shape.referencesFields, hb, hr]
end

end client

section bind

variable {τ : Type} [Owner τ] {store : Store} {s b : Shape} {steps : List Step}

theorem fallBack_of_ok {o after : τ} (h : Client.shape store s o = (⟨steps, .ok b⟩, after))
    (query : QueryId) (kind : Kind) (path : Address) :
    fallBack query store s kind path o =
      (⟨.fellBack kind path :: (steps ++ [.boundOnClient query]), .ok ⟨b, .client⟩⟩,
        Owner.install after ∅) := by
  rw [fallBack, Pass.bind_tell, Pass.bind_of_ok h]
  rfl

theorem fallBack_of_error {o after : τ} {e : Error}
    (h : Client.shape store s o = (⟨steps, .error e⟩, after)) (query : QueryId) (kind : Kind)
    (path : Address) :
    fallBack query store s kind path o = (⟨.fellBack kind path :: steps, .error e⟩, after) := by
  rw [fallBack, Pass.bind_tell, Pass.bind_of_error h]

theorem bindShape_of_check {o : τ} (config : Config) (store : Store) (hc : check o s = .ok ()) :
    let attempt := Server.shape o store .root s
    let rest := conclude config.policy (Owner.id o) store s attempt o
    bindShape config store s o =
      (⟨.started (Owner.id o) s.kind :: attempt.steps ++ rest.1.steps, rest.1.result⟩, rest.2) := by
  simp only [bindShape, hc]

variable {owner : σ}

/-- A bind, and the same bind against a recording owner, whose record shows the protocol. -/
def Obeys (p : Pass σ Error Bound) (q : Pass (Recorded σ) Error Bound) (owner : σ) : Prop :=
  ∃ calls, Calls p q owner calls ∧ Protocol owner calls (p owner).1.result (p owner).2

theorem obeys_stop (e : Error) : Obeys (Pass.stop e) (Pass.stop e) owner := by
  refine ⟨[], fun before => ?_, .silent e⟩
  rw [List.append_nil]
  rfl

theorem fallBack_obeys (hc : check owner s = .ok ()) (query : QueryId) (kind : Kind)
    (path : Address) :
    Obeys (fallBack query store s kind path) (fallBack query store s kind path) owner := by
  obtain ⟨calls, hcalls, ha⟩ := client_follows store s hc owner
  rcases h : Client.shape store s owner with ⟨⟨steps, result⟩, after⟩
  simp only [Calls, h] at hcalls ha
  cases result with
  | ok b =>
    obtain ⟨refs, hg, rfl⟩ := ha
    rw [Obeys, fallBack_of_ok h]
    refine ⟨calls ++ [.install ∅], fun before => ?_, .client hg⟩
    rw [fallBack_of_ok h, fallBack_of_ok (hcalls before), ← List.append_assoc]
    rfl
  | error e =>
    obtain ⟨granted, refs, mid, buffer, rfl, hg, hr⟩ := ha
    rw [Obeys, fallBack_of_error h]
    refine ⟨_, fun before => ?_, .refused hg hr⟩
    rw [fallBack_of_error h, fallBack_of_error (hcalls before)]

theorem conclude_obeys (hc : check owner s = .ok ()) (policy : Policy) (query : QueryId)
    (attempt : Trace Obstacle Shape) :
    Obeys (conclude policy query store s attempt) (conclude policy query store s attempt)
      owner := by
  obtain ⟨steps, result⟩ := attempt
  cases result with
  | ok b => exact ⟨_, fun _ => rfl, .server b _⟩
  | error o =>
    cases o with
    | defect e => exact obeys_stop e
    | outsideStore kind path =>
      cases policy with
      | forbid => exact obeys_stop _
      | allow | warn => exact fallBack_obeys hc query kind path

theorem bindShape_obeys (config : Config) (store : Store) (s : Shape) (owner : σ) :
    Obeys (bindShape config store s) (bindShape config store s) owner := by
  cases hc : check owner s with
  | error e =>
    refine ⟨[], fun before => ?_, ?_⟩
    · have hc' := (check_alike (alike_recorded owner before) s).trans hc
      simp only [bindShape, hc, hc', List.append_nil]
    · simp only [bindShape, hc]
      exact .silent e
  | ok =>
    obtain ⟨calls, hcalls, hp⟩ := conclude_obeys hc config.policy (Owner.id owner)
      (Server.shape owner store .root s)
    rw [Obeys, bindShape_of_check config store hc]
    refine ⟨calls, fun before => ?_, hp⟩
    -- Whatever is recorded already, the check and the attempt on the server see the same owner.
    have ha := alike_recorded owner before
    rw [bindShape_of_check config store hc,
      bindShape_of_check config store ((check_alike ha s).trans hc), server_alike ha, ha.id,
      hcalls before]

theorem Protocol.install_notMem {calls : List Change} {e : Error} {after : σ}
    (h : Protocol owner calls (.error e) after) (mapping : Mapping) : .install mapping ∉ calls := by
  intro hm
  cases h with
  | silent => cases hm
  | refused hg hr =>
    rcases List.mem_append.mp hm with hm | hm
    · exact hg.install_notMem mapping hm
    · cases List.mem_singleton.mp hm

/-- A bind against a recording owner is the bind against the owner, and the record shows how it went:
an owner that it leaves with an error was never given a mapping, and was asked for nothing unless its
own refusal is that error. -/
theorem bindShape_protocol (config : Config) (store : Store) (s : Shape) (owner : σ) :
    let run := bindShape config store s owner
    ∃ calls, bindShape config store s (⟨owner, []⟩ : Recorded σ) = (run.1, ⟨run.2, calls⟩) ∧
      Protocol owner calls run.1.result run.2 ∧
      ∀ e, run.1.result = .error e → ∀ mapping, .install mapping ∉ calls := by
  obtain ⟨calls, hcalls, hp⟩ := bindShape_obeys config store s owner
  refine ⟨calls, hcalls [], hp, fun e he mapping => ?_⟩
  rw [he] at hp
  exact hp.install_notMem mapping

/-- Customers whose rows cannot be buffered, seen by a recorder. -/
def unbuffered : Unbuffered Select := ⟨customers, "no buffer left"⟩

theorem bindShape_protocol_unbuffered :
    let run := bindShape {} standardStore (customerView localName) unbuffered
    run.1.result = .error (.invalidBuffer (.refused "no buffer left")) ∧
      ∃ calls, bindShape {} standardStore (customerView localName)
          (⟨unbuffered, []⟩ : Recorded (Unbuffered Select)) = (run.1, ⟨run.2, calls⟩) ∧
        Protocol unbuffered calls run.1.result run.2 ∧
        calls = [.project (.column "c" "Id" .int64) .int64,
          .project (.column "c" "Id" .int64) .int64, .projectBuffer (customers.buffer .root)] ∧
        ∀ mapping, .install mapping ∉ calls := by
  obtain ⟨calls, hr, hp, hn⟩ :=
    bindShape_protocol {} standardStore (customerView localName) unbuffered
  have hc : calls = [.project (.column "c" "Id" .int64) .int64,
      .project (.column "c" "Id" .int64) .int64, .projectBuffer (customers.buffer .root)] :=
    (congrArg (fun r => r.2.changes) hr).symm
  exact ⟨rfl, calls, hr, hp, hc, hn _ rfl⟩

end bind

end QueryShaping.Binding
