import QueryShaping.Proofs.Binding.BoundNodes
import QueryShaping.Proofs.Binding.Calls

/-!
What a bind asks its store. Main statements: a server pass asks about the scalars that it reaches
(`Server.explores_shape`), a client pass that comes to its end about the scalars that stand below no
accepted one (`Client.asks_shape`), and a bind asks nothing else, each pass about a node at most once
(`questions_bindShape`).
-/

namespace QueryShaping

namespace Trace

variable {ε α β : Type} {t : Trace ε α}

theorem questions_bind_of_ok {x : α} (h : t.result = .ok x) (f : α → Trace ε β) :
    (t >>= f).questions = t.questions ++ (f x).questions := by
  rw [bind_of_ok h, questions, List.filterMap_append]
  rfl

theorem questions_bind_of_error {e : ε} (h : t.result = .error e) (f : α → Trace ε β) :
    (t >>= f).questions = t.questions := by
  rw [bind_of_error h]
  rfl

end Trace

namespace Pass

variable {σ ε α β : Type}

/-- Wherever the run starts, if it comes to its end, it has asked about the given nodes. -/
def Asks (p : Pass σ ε α) (qs : List Shape) : Prop :=
  ∀ s x, (p s).1.result = .ok x → (p s).1.questions = qs

theorem asks_pure (x : α) : Asks (pure x : Pass σ ε α) [] := fun _ _ _ => rfl

theorem asks_stop (e : ε) (qs : List Shape) : Asks (stop e : Pass σ ε α) qs := by
  intro _ _ h
  cases h

theorem asks_tell (step : Step) :
    Asks (tell step : Pass σ ε Unit) ([step].filterMap Step.question?) := fun _ _ _ => rfl

theorem Asks.bind {p : Pass σ ε α} {f : α → Pass σ ε β} {as bs : List Shape} (hp : p.Asks as)
    (hf : ∀ x, (f x).Asks bs) : (p >>= f).Asks (as ++ bs) := by
  intro s y h
  have hs := hp s
  rcases hr : p s with ⟨⟨steps, e | x⟩, after⟩
  · rw [bind_of_error hr] at h
    cases h
  · rw [hr] at hs
    rw [bind_of_ok hr] at h ⊢
    rw [← hs x rfl, ← hf x after y h, Trace.questions, List.filterMap_append]
    rfl

theorem Asks.map {p : Pass σ ε α} {qs : List Shape} (f : α → β) (hp : p.Asks qs) :
    Asks (do return f (← p)) qs := by
  have h := hp.bind fun x => asks_pure (f x)
  rwa [List.append_nil] at h

end Pass

namespace Binding

namespace Server

variable (store : Store)

/-- Of nodes that are visited one after the other, those up to the first obstacle, and that one. -/
def reached : List (Address × Shape) → List Shape
  | [] => []
  | p :: rest => p.2 :: if obstacle? store p.2 = none then reached rest else []

variable {store} {as bs : List (Address × Shape)}

theorem reached_append_of_clear (h : ∀ p ∈ as, obstacle? store p.2 = none)
    (bs : List (Address × Shape)) : reached store (as ++ bs) = as.map Prod.snd ++ reached store bs := by
  induction as with
  | nil => rfl
  | cons p as ih =>
    obtain ⟨hp, has⟩ := List.forall_mem_cons.mp h
    rw [List.cons_append, reached, if_pos hp, ih has, List.map_cons, List.cons_append]

theorem reached_append_of_obstacle (h : ¬ ∀ p ∈ as, obstacle? store p.2 = none)
    (bs : List (Address × Shape)) : reached store (as ++ bs) = reached store as := by
  induction as with
  | nil => exact absurd (List.forall_mem_nil _) h
  | cons p as ih =>
    rw [List.cons_append, reached, reached]
    by_cases hp : obstacle? store p.2 = none
    · rw [if_pos hp, if_pos hp, ih fun has => h (List.forall_mem_cons.mpr ⟨hp, has⟩)]
    · rw [if_neg hp, if_neg hp]

theorem reached_of_clear (h : ∀ p ∈ as, obstacle? store p.2 = none) :
    reached store as = as.map Prod.snd := by
  have ha := reached_append_of_clear h []
  rwa [List.append_nil, reached, List.append_nil] at ha

theorem reached_sublist (as : List (Address × Shape)) :
    (reached store as).Sublist (as.map Prod.snd) := by
  induction as with
  | nil => exact .slnil
  | cons p as ih =>
    rw [reached, List.map_cons]
    split
    · exact ih.cons_cons p.2
    · exact (List.nil_sublist _).cons_cons p.2

/-- A run through the given nodes: it asks about the scalars among those that it reaches, and comes to
its end exactly if none of them is an obstacle. -/
structure Explores (store : Store) {α : Type} (t : Trace Obstacle α)
    (vs : List (Address × Shape)) : Prop where
  questions : t.questions = (reached store vs).filter Shape.isScalar
  returns : (∃ x, t.result = .ok x) ↔ ∀ p ∈ vs, obstacle? store p.2 = none

section explores

variable {α β : Type} {t : Trace Obstacle α}

theorem explores_pure (x : α) : Explores store (pure x) [] :=
  ⟨rfl, iff_of_true ⟨x, rfl⟩ (List.forall_mem_nil _)⟩

theorem Explores.bind {f : α → Trace Obstacle β} (ht : Explores store t as)
    (hf : ∀ x, Explores store (f x) bs) : Explores store (t >>= f) (as ++ bs) := by
  cases hr : t.result with
  | ok x =>
    have ha : ∀ p ∈ as, obstacle? store p.2 = none := ht.returns.mp ⟨x, hr⟩
    constructor
    · rw [Trace.questions_bind_of_ok hr, ht.questions, (hf x).questions, reached_of_clear ha,
        reached_append_of_clear ha, List.filter_append]
    · rw [Trace.bind_of_ok hr, List.forall_mem_append, ← (hf x).returns]
      exact ⟨fun h => ⟨ha, h⟩, fun h => h.2⟩
  | error e =>
    have ha : ¬ ∀ p ∈ as, obstacle? store p.2 = none := mt ht.returns.mpr (by simp [hr])
    constructor
    · rw [Trace.questions_bind_of_error hr, ht.questions, reached_append_of_obstacle ha]
    · rw [Trace.bind_of_error hr]
      exact iff_of_false (by simp) fun h => ha (List.forall_mem_append.mp h).1

theorem Explores.map (g : α → β) (ht : Explores store t as) :
    Explores store (do return g (← t)) as := by
  have h := ht.bind fun x => explores_pure (g x)
  rwa [List.append_nil] at h

/-- A node about which nothing is asked, and which is no obstacle, may stand before the others. -/
theorem Explores.cons (ht : Explores store t as) {n : Shape} (hs : n.isScalar = false)
    (hn : obstacle? store n = none) (path : Address) : Explores store t ((path, n) :: as) := by
  constructor
  · rw [ht.questions, reached, if_pos hn, List.filter_cons_of_neg (by simp [hs])]
  · rw [ht.returns, List.forall_mem_cons]
    exact ⟨fun h => ⟨hn, h⟩, fun h => h.2⟩

theorem explores_outsideStore {n : Shape} (hs : n.isScalar = false) (hn : obstacle? store n ≠ none)
    (kind : Kind) (path : Address) :
    Explores store (outsideStore kind path : Trace Obstacle α) [(path, n)] := by
  constructor
  · rw [reached, if_neg hn, List.filter_cons_of_neg (by simp [hs])]
    rfl
  · exact iff_of_false (by simp [outsideStore]) (by simpa using hn)

variable {owner : Select}

theorem explores_leaf {n : Shape} (hs : n.isScalar) (path : Address) :
    Explores store (leaf owner store path n) [(path, n)] := by
  have hq : (reached store [(path, n)]).filter Shape.isScalar = [n] := by
    simp [reached, hs]
  have ho := @obstacle?_of_isScalar store n hs
  cases hf : store n with
  | none =>
    simp only [leaf, hf]
    refine ⟨hq.symm, iff_of_false ?_ ?_⟩
    · rintro ⟨x, hx⟩
      cases hx
    · simp [ho, hf]
  | some f =>
    simp only [leaf, hf]
    exact ⟨hq.symm, iff_of_true ⟨_, rfl⟩ (by simp [ho, hf])⟩

theorem questions_entity (path : Address) (type : String) (buffer : Reference) :
    (entity owner path type buffer).questions = [] := by
  rw [entity]
  cases source type buffer >>= Owner.fragmentAt owner <;> rfl

theorem explores_entity {type : String} {buffer : Reference}
    (hi : Intact owner (.entity type buffer)) (path : Address) :
    Explores store (entity owner path type buffer) [(path, .entity type buffer)] := by
  obtain ⟨a, f, ha, hm, -⟩ := exists_behind?_of_intact hi
  have hr : (entity owner path type buffer).Returns _ _ := entity_returns ha hm
  refine ⟨questions_entity path type buffer, iff_of_true ⟨_, hr.1⟩ ?_⟩
  exact List.forall_mem_cons.mpr ⟨rfl, List.forall_mem_nil _⟩

mutual
theorem explores_shape : ∀ (s : Shape) (path : Address), Intact owner s →
    Explores store (shape owner store path s) (visited path s)
  | .construct type args, path, hi =>
    (explores_arguments args path ⟨rfl, rfl⟩ (List.forall_mem_cons.mp hi).2).map _
  | .memberInit type args assignments, path, hi => by
    obtain ⟨hia, hif⟩ := List.forall_mem_append.mp (List.forall_mem_cons.mp hi).2
    have ha := explores_arguments args path (n := .memberInit type args assignments) ⟨rfl, rfl⟩ hia
    exact ha.bind fun _ => (explores_fields assignments path hif).map _
  | .entity type buffer, path, hi => explores_entity hi path
  | .attach .., path, _ => explores_outsideStore rfl (by simp [obstacle?]) .attach path
  | .parameter p, path, _ => by
    rw [shape]
    by_cases hp : p.type.isEnumerable
    · rw [if_pos hp]
      exact (explores_pure (Shape.parameter p)).cons (by simp [Shape.isScalar, hp])
        (by simp [obstacle?, Shape.isScalar, hp]) path
    · rw [if_neg hp]
      exact explores_leaf (by simp [Shape.isScalar, hp]) path
  | .constant .., path, _ | .column .., path, _ | .binary .., path, _ | .call .., path, _ =>
    explores_leaf rfl path
  | .group p, path, _ => (explores_pure (Shape.group p)).cons rfl rfl path
  | .reference r, _, hi => absurd hi (not_intact_reference r)
  | .lookup p, _, hi => absurd hi (not_intact_lookup p)
theorem explores_arguments : ∀ (args : Args Shape) (path : Address) {n : Shape},
    (n.isScalar = false ∧ obstacle? store n = if args.byPosition then some .construct else none) →
    (∀ n ∈ Shape.nodesArgs args, defect? owner n = none) →
    Explores store (arguments owner store path args) ((path, n) :: visitedArgs path args)
  | .positional [], path, _, hn, _ => (explores_pure _).cons hn.1 hn.2 path
  | .positional (_ :: _), path, _, hn, _ =>
    explores_outsideStore hn.1 (by simp [hn.2, Args.byPosition]) .construct path
  | .named fs, path, _, hn, hi => ((explores_fields fs path hi).map _).cons hn.1 hn.2 path
theorem explores_fields : ∀ (fs : List (Member × Shape)) (path : Address),
    (∀ n ∈ Shape.nodesFields fs, defect? owner n = none) →
    Explores store (fields owner store path fs) (visitedFields path fs)
  | [], _, _ => explores_pure []
  | (m, s) :: rest, path, hi => by
    obtain ⟨his, hir⟩ := List.forall_mem_append.mp hi
    exact (explores_shape s (path.child m) his).bind fun _ => (explores_fields rest path hir).map _
end

end explores

end Server

namespace Client

open Pass

variable (store : Store)

/-- The scalars that stand below no accepted one, each before those in its operands. -/
def questions (s : Shape) : List Shape := (s.exposed (accepts store)).filter Shape.isScalar

variable {store}

theorem questions_of_scalar {s : Shape} (hs : s.isScalar) : questions store s =
    [s] ++ if (store s).isSome then [] else s.children.flatMap (questions store) := by
  have ha : accepts store s = (store s).isSome := by rw [accepts, hs, Bool.true_and]
  rw [questions, Shape.exposed_eq, List.filter_cons_of_pos hs, ha]
  split
  · rfl
  · rw [List.filter_flatMap]
    rfl

theorem questions_of_not_scalar {s : Shape} (hs : s.isScalar = false) :
    questions store s = s.children.flatMap (questions store) := by
  have ha : accepts store s = false := by rw [accepts, hs, Bool.false_and]
  rw [questions, Shape.exposed_eq, List.filter_cons_of_neg (by simp [hs]), ha,
    if_neg Bool.false_ne_true, List.filter_flatMap]
  rfl

theorem flatMap_questions_pair (a b : Shape) :
    [a, b].flatMap (questions store) = questions store a ++ questions store b := by
  rw [List.flatMap_cons, List.flatMap_singleton]

variable {σ : Type} [Owner σ]

theorem asks_project (kind : Kind) (f : Fragment) (type : DataType) :
    Asks (project kind f type : Pass σ Error Shape) [] := fun _ _ _ => rfl

theorem asks_entity (type : String) (buffer : Reference) :
    Asks (entity type buffer : Pass σ Error Shape) [] := by
  intro o x h
  rcases hb : Owner.projectBuffer o buffer with ⟨_ | _, after⟩ <;> simp only [entity, hb] <;> rfl

theorem asks_scalar {s : Shape} (hs : s.isScalar) {rest : Pass σ Error Shape}
    (hr : rest.Asks (s.children.flatMap (questions store))) :
    Asks (scalar store s rest) (questions store s) := by
  rw [questions_of_scalar hs]
  refine (asks_tell (.asked s)).bind fun _ => ?_
  cases hf : store s with
  | some f =>
    exact asks_project s.kind f s.type
  | none =>
    exact hr

mutual
theorem asks_shape : ∀ s : Shape, Asks (shape store s : Pass σ Error Shape) (questions store s)
  | .construct type args => by
    rw [questions_of_not_scalar rfl]
    exact (asks_arguments args).map (Shape.construct type)
  | .memberInit type args assignments => by
    rw [questions_of_not_scalar rfl, Shape.children, List.flatMap_append]
    exact (asks_arguments args).bind fun args =>
      (asks_fields assignments).map (Shape.memberInit type args)
  | .entity type buffer => asks_entity type buffer
  | .attach e navigation value => by
    rw [questions_of_not_scalar rfl, Shape.children, flatMap_questions_pair]
    exact (asks_shape e).bind fun e => (asks_shape value).map (Shape.attach e navigation)
  | .group p => asks_pure (Shape.group p)
  | .parameter p => by
    rw [shape]
    by_cases hp : p.type.isEnumerable
    · rw [if_pos hp, questions_of_not_scalar (by simp [Shape.isScalar, hp])]
      exact asks_pure (Shape.parameter p)
    · rw [if_neg hp]
      refine asks_scalar (by simp [Shape.isScalar, hp]) ?_
      exact (asks_tell (.deferred p)).map fun _ => Shape.lookup p
  | .constant .. | .column .. => asks_scalar rfl (asks_pure _)
  | .binary left op right type => by
    refine asks_scalar rfl ?_
    rw [Shape.children, flatMap_questions_pair]
    exact (asks_shape left).bind fun left => (asks_shape right).map (Shape.binary left op · type)
  | .call function args type => asks_scalar rfl ((asks_shapes args).map (Shape.call function · type))
  | .reference _ | .lookup _ => asks_stop _ _
theorem asks_arguments : ∀ args : Args Shape,
    Asks (arguments store args : Pass σ Error (Args Shape)) (args.values.flatMap (questions store))
  | .positional values => (asks_shapes values).map Args.positional
  | .named fs => (asks_fields fs).map Args.named
theorem asks_shapes : ∀ ss : List Shape,
    Asks (shapes store ss : Pass σ Error (List Shape)) (ss.flatMap (questions store))
  | [] => asks_pure []
  | s :: rest => by
    rw [List.flatMap_cons]
    exact (asks_shape s).bind fun s => (asks_shapes rest).map (s :: ·)
theorem asks_fields : ∀ fs : List (Member × Shape),
    Asks (fields store fs : Pass σ Error (List (Member × Shape)))
      ((fs.map Prod.snd).flatMap (questions store))
  | [] => asks_pure []
  | (m, s) :: rest => by
    rw [List.map_cons, List.flatMap_cons]
    exact (asks_shape s).bind fun s => (asks_fields rest).map ((m, s) :: ·)
end

end Client

section bind

variable {config : Config} {store : Store} {s : Shape} {owner : Select}

theorem questions_of_check (hc : check owner s = .ok ()) :
    (bindShape config store s owner).1.questions =
      (Server.reached store (Server.visited .root s)).filter Shape.isScalar ++
        (conclude config.policy owner.id store s (Server.shape owner store .root s)
          owner).1.questions := by
  have hi : Intact owner s := (check_eq_ok_iff owner s).mp hc
  rw [bindShape_of_check config store hc, Trace.questions, List.cons_append,
    List.filterMap_cons_none rfl, List.filterMap_append, ← (Server.explores_shape s .root hi).questions]
  rfl

theorem questions_fallBack (hi : Intact owner s) (query : QueryId) (kind : Kind) (path : Address) :
    (fallBack query store s kind path owner).1.questions = Client.questions store s := by
  obtain ⟨steps, hc⟩ := client_returns store hi
  have hq : (Client.shape store s owner).1.questions = Client.questions store s :=
    Client.asks_shape s owner _ (by rw [hc])
  rw [hc, Trace.questions] at hq
  rw [fallBack_of_ok hc, Trace.questions, List.filterMap_cons_none rfl, List.filterMap_append, hq]
  exact List.append_nil _

theorem questions_conclude_of_clear (hi : Intact owner s)
    (ho : ∀ p ∈ Server.visited .root s, Server.obstacle? store p.2 = none) (policy : Policy) :
    (conclude policy owner.id store s (Server.shape owner store .root s) owner).1.questions = [] := by
  obtain ⟨b, hb⟩ := (Server.explores_shape s .root hi).returns.mpr ho
  simp only [conclude, hb]
  rfl

theorem questions_conclude_of_obstacle (hi : Intact owner s)
    (ho : ∃ p ∈ Server.visited .root s, Server.obstacle? store p.2 ≠ none) (policy : Policy) :
    (conclude policy owner.id store s (Server.shape owner store .root s) owner).1.questions =
      if policy = .forbid then [] else Client.questions store s := by
  have hn : Server.obstacles store .root s ≠ [] := by
    rw [ne_eq, Server.obstacles_eq_nil_iff]
    obtain ⟨p, hp, ho⟩ := ho
    exact fun h => ho (h p hp)
  have hr := Server.shape_stops s .root hi _ (List.head?_eq_some_head hn)
  simp only [conclude, show (Server.shape owner store .root s).result = _ from hr]
  cases policy with
  | forbid => rfl
  | allow | warn => exact questions_fallBack hi ..

end bind

/-- A bind asks about no node of a shape that is refused by the check. Of any other shape the server
pass asks about the scalars that it reaches, the first obstacle being the last of these if it is a
scalar. Only if there is an obstacle and the policy allows it, the client pass then asks about the
scalars that stand below no accepted one. So neither pass asks twice about one occurrence of a
node. -/
theorem questions_bindShape (config : Config) (store : Store) (s : Shape) (owner : Select) :
    let asked := (bindShape config store s owner).1.questions
    let visited := Server.visited .root s
    let first := (Server.reached store visited).filter Shape.isScalar
    let second := (s.exposed (Client.accepts store)).filter Shape.isScalar
    (∀ e, check owner s = .error e → asked = []) ∧
    (check owner s = .ok () →
      ((∀ p ∈ visited, Server.obstacle? store p.2 = none) → asked = first) ∧
      ((∃ p ∈ visited, Server.obstacle? store p.2 ≠ none) →
        (config.policy = .forbid → asked = first) ∧
        (config.policy = .allow ∨ config.policy = .warn → asked = first ++ second))) ∧
    first.Sublist s.nodes ∧ second.Sublist s.nodes ∧ ∀ n ∈ asked, n.isScalar := by
  intro asked visited first second
  have hfirst : first.Sublist s.nodes :=
    List.filter_sublist.trans ((Server.reached_sublist visited).trans (Server.visited_sublist s .root))
  have hsecond : second.Sublist s.nodes := List.filter_sublist.trans (Shape.exposed_sublist _ s)
  cases hc : check owner s with
  | error e =>
    have ha : asked = [] := by simp only [asked, bindShape, hc]; rfl
    refine ⟨fun _ _ => ha, fun h => ?_, hfirst, hsecond, ha ▸ List.forall_mem_nil _⟩
    cases h
  | ok =>
    have hi : Intact owner s := (check_eq_ok_iff owner s).mp hc
    have hasked : asked = first ++ _ := questions_of_check hc
    have hclear : (∀ p ∈ visited, Server.obstacle? store p.2 = none) → asked = first := by
      intro ho
      rw [hasked, questions_conclude_of_clear hi ho, List.append_nil]
    have hobstacle : (∃ p ∈ visited, Server.obstacle? store p.2 ≠ none) →
        asked = first ++ if config.policy = .forbid then [] else second := by
      intro ho
      rw [hasked, questions_conclude_of_obstacle hi ho]
      rfl
    have hscalar : ∀ n ∈ first ++ second, n.isScalar :=
      List.forall_mem_append.mpr ⟨fun _ hn => (List.mem_filter.mp hn).2,
        fun _ hn => (List.mem_filter.mp hn).2⟩
    have hsub : asked ⊆ first ++ second := by
      by_cases ho : ∀ p ∈ visited, Server.obstacle? store p.2 = none
      · rw [hclear ho]
        exact List.subset_append_left _ _
      · rw [hobstacle (by simpa using ho)]
        split <;> simp
    refine ⟨by simp, fun _ => ⟨hclear, fun ho => ⟨fun hp => ?_, fun hp => ?_⟩⟩, hfirst, hsecond,
      fun n hn => hscalar n (hsub hn)⟩
    · rw [hobstacle ho, if_pos hp, List.append_nil]
    · rw [hobstacle ho, if_neg (by rcases hp with hp | hp <;> simp [hp])]

/-- A label between two keys. -/
def labelledKeys : Shape :=
  .construct "Keys"
    (.named [(⟨"Keys", "Id"⟩, .column "c" "Id" .int64), (⟨"Keys", "Label"⟩, localName),
      (⟨"Keys", "Key"⟩, .column "c" "Key" .int64)])

theorem questions_bindShape_labelledKeys :
    (bindShape {} standardStore labelledKeys customers).1.questions =
      [.column "c" "Id" .int64, localName] ++
        [.column "c" "Id" .int64, localName, .column "c" "Name" .string,
          .parameter ⟨"culture", .object "Culture"⟩, .column "c" "Key" .int64] ∧
    (bindShape { policy := .forbid } standardStore labelledKeys customers).1.questions =
      [.column "c" "Id" .int64, localName] ∧
    (bindShape {} standardStore (customerView foreignOrders) customers).1.questions = [] := by
  have ho : ∃ p ∈ Server.visited .root labelledKeys,
      Server.obstacle? standardStore p.2 ≠ none := ⟨([⟨"Keys", "Label"⟩], localName), by decide⟩
  obtain ⟨-, ha, -⟩ := questions_bindShape {} standardStore labelledKeys customers
  obtain ⟨-, hf, -⟩ := questions_bindShape { policy := .forbid } standardStore labelledKeys customers
  obtain ⟨hd, -⟩ := questions_bindShape {} standardStore (customerView foreignOrders) customers
  exact ⟨((ha rfl).2 ho).2 (.inl rfl), ((hf rfl).2 ho).1 rfl, hd _ rfl⟩

end Binding

end QueryShaping
