import QueryShaping.Proofs.Binding.Steps
import QueryShaping.Proofs.Binding.Visits

/-!
What the settings of a bind change. Main statement: the switch for sensitive data changes only what
the log shows, and the policy only how a bind ends that the store cannot carry out as a whole, and
by which event it tells so (`bindShape_config`).
-/

namespace QueryShaping

/-- The event by which a bind tells that it falls back to the client. -/
def escalation (policy : Policy) (kind : Kind) (path : Address) : Event :=
  let fields := [("node", .text kind.name), ("member", .text path.text)]
  match policy with
  | .warn =>
    ⟨.warn, "shaper cannot be evaluated by the store and will be evaluated on the client", fields⟩
  | .allow | .forbid => ⟨.debug, "falling back to client evaluation", fields⟩

namespace Event

def isEscalation (e : Event) : Bool :=
  e.message ∈ ["falling back to client evaluation",
    "shaper cannot be evaluated by the store and will be evaluated on the client"]

/-- What is left of an event where sensitive data may not be logged. -/
def redacted? (e : Event) : Option Event :=
  if e.message ∈ ["projecting fragment", "parameter resolved at materialization"] then none
  else some { e with fields := e.fields.filter (·.1 ≠ "fragment") }

end Event

namespace Step

theorem events_insensitive (policy : Policy) (step : Step) :
    step.events ⟨policy, false⟩ = (step.events ⟨policy, true⟩).filterMap Event.redacted? := by
  cases step with
  | fellBack => cases policy <;> rfl
  | _ => rfl

theorem events_fellBack (config : Config) (kind : Kind) (path : Address) :
    events config (fellBack kind path) = [escalation config.policy kind path] := by
  cases h : config.policy <;> simp [events, escalation, h]

variable {step : Step}

theorem events_policy (policy : Policy) (sensitive : Bool) (h : step.fellBack? = none) :
    step.events ⟨policy, sensitive⟩ = step.events ⟨.allow, sensitive⟩ := by
  cases step with
  | fellBack => cases h
  | _ => rfl

theorem filter_isEscalation (config : Config) (h : step.fellBack? = none) :
    (step.events config).filter Event.isEscalation = [] := by
  rcases config with ⟨policy, sensitive⟩
  cases step with
  | fellBack => cases h
  | _ => cases sensitive <;> rfl

variable {steps : List Step}

theorem flatMap_events_policy (policy : Policy) (sensitive : Bool)
    (h : ∀ step ∈ steps, step.fellBack? = none) :
    steps.flatMap (events ⟨policy, sensitive⟩) = steps.flatMap (events ⟨.allow, sensitive⟩) :=
  List.flatMap_congr fun step hs => events_policy policy sensitive (h step hs)

theorem isEscalation_of_flatMap_events {config : Config}
    (h : ∀ step ∈ steps, step.fellBack? = none) :
    ∀ e ∈ steps.flatMap (events config), e.isEscalation = false := by
  intro e he
  obtain ⟨step, hs, he⟩ := List.mem_flatMap.mp he
  have hf := List.filter_eq_nil_iff.mp (filter_isEscalation config (h step hs))
  exact Bool.eq_false_iff.mpr (hf e he)

end Step

theorem Trace.events_insensitive {ε α : Type} (policy : Policy) (t : Trace ε α) :
    t.events ⟨policy, false⟩ = (t.events ⟨policy, true⟩).filterMap Event.redacted? := by
  rw [events, events, List.filterMap_flatMap]
  exact List.flatMap_congr fun step _ => Step.events_insensitive policy step

namespace Binding

variable {store : Store} {s : Shape} {owner : Select}

/-- The first visited node that keeps a shape from being bound on the server, with its path. -/
def FirstObstacle (store : Store) (s : Shape) (kind : Kind) (path : Address) : Prop :=
  ∃ before n after, Server.visited .root s = before ++ (path, n) :: after ∧
    (∀ p ∈ before, Server.obstacle? store p.2 = none) ∧ Server.obstacle? store n = some kind

theorem firstObstacle_of_head? {o : Kind × Address}
    (h : (Server.obstacles store .root s).head? = some o) : FirstObstacle store s o.1 o.2 := by
  rw [Server.obstacles_eq, List.head?_filterMap] at h
  obtain ⟨before, ⟨path, n⟩, after, hv, hn, hb⟩ := List.findSome?_eq_some_iff.mp h
  obtain ⟨kind, hk, rfl⟩ := Option.map_eq_some_iff.mp hn
  exact ⟨before, n, after, hv, fun p hp => Option.map_eq_none_iff.mp (hb p hp), hk⟩

theorem bindShape_sensitive (policy : Policy) (sensitive sensitive' : Bool) :
    bindShape ⟨policy, sensitive⟩ store s owner = bindShape ⟨policy, sensitive'⟩ store s owner :=
  rfl

theorem bindShape_warn (sensitive : Bool) :
    bindShape ⟨.warn, sensitive⟩ store s owner = bindShape ⟨.allow, sensitive⟩ store s owner := by
  rw [bindShape, bindShape]
  rfl

variable {sensitive : Bool}

/-- To forbid the client changes nothing where it is not needed. -/
theorem bindShape_forbid
    (h : ∀ b, (bindShape ⟨.allow, sensitive⟩ store s owner).1.result ≠ .ok ⟨b, .client⟩) :
    (bindShape ⟨.forbid, sensitive⟩ store s owner).1.result =
        (bindShape ⟨.allow, sensitive⟩ store s owner).1.result ∧
      (bindShape ⟨.forbid, sensitive⟩ store s owner).2 =
        (bindShape ⟨.allow, sensitive⟩ store s owner).2 := by
  simp only [result_bindShape, select_bindShape] at h ⊢
  cases hd : s.nodes.findSome? (defect? owner) with
  | some e => simp only [outcome, hd, and_self]
  | none =>
    cases ho : (Server.obstacles store .root s).head? with
    | none => simp only [outcome, hd, ho, and_self]
    | some o => exact absurd (by simp [outcome, hd, ho]) (h (clientBound store owner s))

/-- Where the policy allows it, the log of a bind that ends on the client tells once that it falls
back, and for which node. -/
theorem exists_escalation {b : Shape} {o : Kind × Address}
    (h : (bindShape ⟨.allow, sensitive⟩ store s owner).1.result = .ok ⟨b, .client⟩)
    (ho : (Server.obstacles store .root s).head? = some o) :
    ∃ before after, (∀ e ∈ before ++ after, e.isEscalation = false) ∧
      ∀ policy, (bindShape ⟨.allow, sensitive⟩ store s owner).1.events ⟨policy, sensitive⟩ =
        before ++ escalation policy o.1 o.2 :: after := by
  obtain ⟨o', before, after, ho', hs, hn⟩ := exists_fellBack h
  obtain rfl : o' = o := Option.some.inj (ho'.symm.trans ho)
  refine ⟨before.flatMap (Step.events ⟨.allow, sensitive⟩),
    after.flatMap (Step.events ⟨.allow, sensitive⟩), ?_, fun policy => ?_⟩
  · rw [← List.flatMap_append]
    exact Step.isEscalation_of_flatMap_events hn
  -- The run does not depend on the policy, and its other steps show the same under both.
  · obtain ⟨hb, ha⟩ := List.forall_mem_append.mp hn
    rw [Trace.events, hs, List.flatMap_append, List.flatMap_cons, Step.events_fellBack,
      Step.flatMap_events_policy policy sensitive hb, Step.flatMap_events_policy policy sensitive ha]
    rfl

/-- The switch for sensitive data changes the log alone, by what is left out of it. To warn instead
of to allow changes the event alone that tells of the client. To forbid changes only what would end
on the client, into a refusal for the node that the event names. -/
theorem bindShape_config (store : Store) (s : Shape) (owner : Select) :
    let run policy sensitive := bindShape ⟨policy, sensitive⟩ store s owner
    let log policy sensitive := (run policy sensitive).1.events ⟨policy, sensitive⟩
    (∀ policy, (run policy false).1.result = (run policy true).1.result ∧
      (run policy false).2 = (run policy true).2 ∧
      (run policy false).1.questions = (run policy true).1.questions ∧
      log policy false = (log policy true).filterMap Event.redacted?) ∧
    ∀ sensitive, (run .warn sensitive).1.result = (run .allow sensitive).1.result ∧
      (run .warn sensitive).2 = (run .allow sensitive).2 ∧
      ((∀ b, (run .allow sensitive).1.result ≠ .ok ⟨b, .client⟩) →
        log .warn sensitive = log .allow sensitive ∧
        (∀ e ∈ log .allow sensitive, e.isEscalation = false) ∧
        (run .forbid sensitive).1.result = (run .allow sensitive).1.result ∧
        (run .forbid sensitive).2 = (run .allow sensitive).2) ∧
      ∀ b, (run .allow sensitive).1.result = .ok ⟨b, .client⟩ →
        ∃ kind path before after, FirstObstacle store s kind path ∧
          log .allow sensitive = before ++ escalation .allow kind path :: after ∧
          log .warn sensitive = before ++ escalation .warn kind path :: after ∧
          (∀ e ∈ before ++ after, e.isEscalation = false) ∧
          (run .forbid sensitive).1.result = .error (.clientEvaluationForbidden kind path) ∧
          (run .forbid sensitive).2 = owner := by
  intro run log
  refine ⟨fun policy => ?_, fun sensitive => ?_⟩
  · have hp : run policy false = run policy true := bindShape_sensitive policy false true
    refine ⟨congrArg (·.1.result) hp, congrArg (·.2) hp, congrArg (·.1.questions) hp, ?_⟩
    show (run policy false).1.events _ = _
    rw [hp]
    exact Trace.events_insensitive policy _
  have hw : run .warn sensitive = run .allow sensitive := bindShape_warn sensitive
  refine ⟨congrArg (·.1.result) hw, congrArg (·.2) hw, fun hc => ?_, fun b hb => ?_⟩
  · have hn := fellBack?_eq_none hc
    refine ⟨?_, Step.isEscalation_of_flatMap_events hn, bindShape_forbid hc⟩
    show (run .warn sensitive).1.events _ = (run .allow sensitive).1.events _
    rw [hw]
    exact Step.flatMap_events_policy .warn sensitive hn
  · obtain ⟨-, o, ho⟩ := obstacle_of_bindShape_client hb
    obtain ⟨hi, -, -⟩ := eq_of_bindShape_client hb
    obtain ⟨before, after, hn, hl⟩ := exists_escalation hb ho
    have hp : (Config.mk .forbid sensitive).policy = .forbid := rfl
    obtain ⟨hr, hs⟩ := bindShape_forbidden hi ho hp
    refine ⟨o.1, o.2, before, after, firstObstacle_of_head? ho, hl .allow, ?_, hn, hr, hs⟩
    show (run .warn sensitive).1.events _ = _
    rw [hw]
    exact hl .warn

theorem bindShape_config_customerView :
    (bindShape ⟨.forbid, true⟩ standardStore (customerView upperName) customers).2 =
        (bindShape ⟨.allow, true⟩ standardStore (customerView upperName) customers).2 ∧
      ∃ before after, (bindShape ⟨.warn, true⟩ standardStore (customerView localName)
          customers).1.events ⟨.warn, true⟩ =
        before ++ escalation .warn .call [⟨"View", "Label"⟩] :: after := by
  have hs := ((bindShape_config standardStore (customerView upperName) customers).2 true).2.2.1
  have hc := ((bindShape_config standardStore (customerView localName) customers).2 true).2.2.2
  have hn : ∀ b, (bindShape ⟨.allow, true⟩ standardStore (customerView upperName)
      customers).1.result ≠ .ok ⟨b, .client⟩ := by
    intro b hb
    have hr : (bindShape ⟨.allow, true⟩ standardStore (customerView upperName) customers).1.result =
        .ok ⟨serverBound customers (customerView upperName), .server⟩ := rfl
    cases hr.symm.trans hb
  obtain ⟨kind, path, before, after, -, -, hw, -, hr, -⟩ := hc _ rfl
  have hf : (bindShape ⟨.forbid, true⟩ standardStore (customerView localName) customers).1.result =
      .error (.clientEvaluationForbidden .call [⟨"View", "Label"⟩]) := rfl
  obtain ⟨rfl, rfl⟩ := Error.clientEvaluationForbidden.inj (Except.error.inj (hr.symm.trans hf))
  exact ⟨(hs hn).2.2.2, before, after, hw⟩

end Binding

end QueryShaping
