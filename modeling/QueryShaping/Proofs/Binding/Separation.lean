import QueryShaping.Proofs.Binding.Calls
import QueryShaping.Proofs.Binding.Paths

/-!
What a server pass records, whatever the owner answers: the fragments at the sites of the shape, in
order, up to the place where it stops (`records_shape`). Main statement: two recorded addresses of
which one starts with the other come from parts of one construction with the same member, so that
where no construction names a member twice every site has an entry of its own
(`recordings_separate`).
-/

namespace QueryShaping

/-- The fragment behind a value buffer, as an owner answers it. -/
def Owner.behind? {σ : Type} [Owner σ] (owner : σ) (buffer : Reference) : Option Fragment :=
  buffer.address?.bind fun a => (Owner.fragmentAt owner a).toOption

namespace Trace

variable {ε α β : Type} {t : Trace ε α} {as bs : List (Address × Fragment)}

/-- The run records the given fragments as far as it comes, and all of them if it returns. -/
structure Records (t : Trace ε α) (es : List (Address × Fragment)) : Prop where
  recorded_le : t.recorded <+: es
  recorded_eq : ∀ x, t.result = .ok x → t.recorded = es

theorem records_pure (x : α) : Records (pure x : Trace ε α) [] :=
  ⟨List.prefix_rfl, fun _ _ => rfl⟩

theorem records_of_silent (h : t.recorded = []) (hr : ∀ x, t.result ≠ .ok x) : t.Records as :=
  ⟨h ▸ List.nil_prefix, fun x hx => absurd hx (hr x)⟩

theorem Records.bind {f : α → Trace ε β} (ht : t.Records as) (hf : ∀ x, (f x).Records bs) :
    (t >>= f).Records (as ++ bs) := by
  cases hr : t.result with
  | ok x =>
    have hrec : (t >>= f).recorded = as ++ (f x).recorded := by
      rw [bind_of_ok hr, recorded, List.filterMap_append, ← ht.recorded_eq x hr]
      rfl
    refine ⟨?_, fun y hy => ?_⟩
    · rw [hrec]
      exact (List.prefix_append_right_inj as).mpr (hf x).recorded_le
    · rw [bind_of_ok hr] at hy
      rw [hrec, (hf x).recorded_eq y hy]
  | error e =>
    rw [bind_of_error hr]
    exact ⟨ht.recorded_le.trans (List.prefix_append as bs), fun y hy => by cases hy⟩

theorem Records.map (f : α → β) (ht : t.Records as) : (do return f (← t)).Records as := by
  have h := ht.bind fun x => records_pure (f x)
  rwa [List.append_nil] at h

end Trace

namespace Binding

namespace Server

open Trace

section records

variable {σ : Type} [Owner σ] (owner : σ) (store : Store)

theorem records_leaf (path : Address) (s : Shape) :
    (leaf owner store path s).Records ((store s).toList.map (path, ·)) := by
  cases hf : store s with
  | some f =>
    simp only [leaf, hf]
    exact ⟨List.prefix_rfl, fun _ _ => rfl⟩
  | none =>
    simp only [leaf, hf]
    exact ⟨List.prefix_rfl, fun _ _ => rfl⟩

theorem records_entity (path : Address) (type : String) (buffer : Reference) :
    (entity owner path type buffer).Records
      ((Owner.behind? owner buffer).toList.map (path, ·)) := by
  obtain ⟨query, target, bufferType⟩ := buffer
  cases target with
  | slot i => exact records_of_silent rfl fun _ h => by cases h
  | address a =>
    have hs : source type ⟨query, .address a, bufferType⟩ >>= Owner.fragmentAt owner =
        Owner.fragmentAt owner a := rfl
    rw [entity, hs]
    cases hf : Owner.fragmentAt owner a with
    | error e => exact records_of_silent rfl fun _ h => by cases h
    | ok f =>
      simp only [Owner.behind?, Reference.address?, Option.bind_some, hf]
      exact ⟨List.prefix_rfl, fun _ _ => rfl⟩

mutual
theorem records_shape : ∀ (s : Shape) (path : Address),
    (shape owner store path s).Records (recordings store (Owner.behind? owner) path s)
  | .construct type args, path => (records_arguments args path).map (Shape.construct type)
  | .memberInit type args assignments, path =>
    (records_arguments args path).bind fun args =>
      (records_fields assignments path).map (Shape.memberInit type args)
  | .entity type buffer, path => records_entity owner path type buffer
  | .attach .., _ => records_of_silent rfl fun _ h => by cases h
  | .group p, _ => records_pure (Shape.group p)
  | .parameter p, path => by
    rw [shape, recordings]
    split
    · exact records_pure (Shape.parameter p)
    · exact records_leaf owner store path (.parameter p)
  | .constant .., path | .column .., path | .binary .., path | .call .., path =>
    records_leaf owner store path _
  | .reference _, _ | .lookup _, _ => records_of_silent rfl fun _ h => by cases h
theorem records_arguments : ∀ (args : Args Shape) (path : Address),
    (arguments owner store path args).Records
      (recordingsArgs store (Owner.behind? owner) path args)
  | .positional [], _ => records_pure (Args.positional [])
  | .positional (_ :: _), _ => records_of_silent rfl fun _ h => by cases h
  | .named fs, path => (records_fields fs path).map Args.named
theorem records_fields : ∀ (fs : List (Member × Shape)) (path : Address),
    (fields owner store path fs).Records (recordingsFields store (Owner.behind? owner) path fs)
  | [], _ => records_pure []
  | (m, s) :: rest, path =>
    (records_shape s (path.child m)).bind fun s => (records_fields rest path).map ((m, s) :: ·)
end

end records

end Server

variable {σ : Type} [Owner σ]

theorem mode_fallBack {store : Store} {s : Shape} {o : σ} {query : QueryId} {kind : Kind}
    {path : Address} {b : Bound} (h : (fallBack query store s kind path o).1.result = .ok b) :
    b.mode = .client := by
  rcases hc : Client.shape store s o with ⟨⟨steps, e | c⟩, after⟩
  · rw [fallBack_of_error hc] at h
    cases h
  · rw [fallBack_of_ok hc] at h
    cases h
    rfl

/-- Only a server pass that comes to its end leads to a bind on the server. -/
theorem eq_of_conclude_server {policy : Policy} {query : QueryId} {store : Store} {s b : Shape}
    {attempt : Trace Obstacle Shape} {o : σ}
    (h : (conclude policy query store s attempt o).1.result = .ok ⟨b, .server⟩) :
    attempt.result = .ok b ∧
      (conclude policy query store s attempt o).2 = Owner.install o (recordedMapping attempt) := by
  unfold conclude at h ⊢
  cases hr : attempt.result with
  | ok b' =>
    simp only [hr] at h ⊢
    cases h
    exact ⟨rfl, rfl⟩
  | error obstacle =>
    simp only [hr] at h
    cases obstacle with
    | defect e => cases h
    | outsideStore kind path =>
      cases policy with
      | forbid => cases h
      | allow | warn => cases mode_fallBack h

theorem eq_install_of_bindShape {config : Config} {store : Store} {s b : Shape} {owner : σ}
    (h : (bindShape config store s owner).1.result = .ok ⟨b, .server⟩) :
    (Server.shape owner store .root s).result = .ok b ∧ (bindShape config store s owner).2 =
      Owner.install owner (recordedMapping (Server.shape owner store .root s)) := by
  cases hc : check owner s with
  | error e => simp [bindShape, hc, Trace.stop] at h
  | ok =>
    rw [bindShape_of_check config store hc] at h ⊢
    exact eq_of_conclude_server h

/-- Whatever the owner answers, a pass records the leaves of a shape in order, up to the place where
it stops. If the address of one leaf starts with that of another, the two stand below one node in
parts that come with the same member. So where no construction names a member twice, every recorded
leaf has an address of its own, none above another, and an entry in the mapping that is installed. -/
theorem recordings_separate (store : Store) (s : Shape) (owner : σ) :
    let attempt := Server.shape owner store .root s
    let sites := Server.sites store (Owner.behind? owner) s
    (sites.map Prod.fst).Nodup ∧
    attempt.recorded <+: sites.map Prod.snd ∧
    (∀ b, attempt.result = .ok b → attempt.recorded = sites.map Prod.snd) ∧
    (∀ p a f q b g, (p, a, f) ∈ sites → (q, b, g) ∈ sites → p ≠ q → a <+: b →
      s.PartAtMember p q) ∧
    (s.NamesOnce → attempt.recorded.Pairwise Server.Apart ∧
      ∀ config b, (bindShape config store s owner).1.result = .ok ⟨b, .server⟩ →
        ∃ mapping, (bindShape config store s owner).2 = Owner.install owner mapping ∧
          mapping.entries = attempt.recorded ∧ mapping.size = sites.length) := by
  intro attempt sites
  have hr : attempt.Records (sites.map Prod.snd) := by
    rw [Server.map_snd_sites]
    exact Server.records_shape owner store s .root
  refine ⟨Server.nodup_sites s, hr.recorded_le, hr.recorded_eq, fun p a f q b g hp hq hne hab =>
    Server.partAtMember_of_mem_sites hp hq hne hab, fun hn => ?_⟩
  have ha : attempt.recorded.Pairwise Server.Apart :=
    (Server.pairwise_apart hn).sublist hr.recorded_le.sublist
  refine ⟨ha, fun config b hb => ?_⟩
  obtain ⟨hok, hi⟩ := eq_install_of_bindShape hb
  have he : (recordedMapping attempt).entries = attempt.recorded :=
    congrArg _ (OrderedMap.ofList_of_nodup (Server.nodup_of_pairwise_apart ha))
  refine ⟨recordedMapping attempt, hi, he, ?_⟩
  rw [OrderedMap.size, he, hr.recorded_eq b hok, List.length_map]

/-- A view that sets one member twice, the second time to an object. -/
def twiceKeyed : Shape :=
  .memberInit "View" (.named [(⟨"View", "Key"⟩, .column "c" "Id" .int64)])
    [(⟨"View", "Key"⟩, .construct "Key" (.named [(⟨"Key", "Id"⟩, .column "c" "Id" .int64)]))]

theorem recordings_separate_twiceKeyed :
    (twiceKeyed.PartAtMember [0] [1, 0] ∧ ¬ twiceKeyed.NamesOnce) ∧
      (customerView upperName).NamesOnce ∧
      ∃ b mapping, (bindShape {} standardStore (customerView upperName) customers).1.result =
          .ok ⟨b, .server⟩ ∧
        (bindShape {} standardStore (customerView upperName) customers).2 =
          Owner.install customers mapping ∧ mapping.size = 4 := by
  have hn : (customerView upperName).NamesOnce := by decide
  obtain ⟨-, -, -, hp, -⟩ := recordings_separate standardStore twiceKeyed customers
  obtain ⟨-, -, -, -, hu⟩ := recordings_separate standardStore (customerView upperName) customers
  obtain ⟨mapping, hi, -, hs⟩ := (hu hn).2 {} _ rfl
  refine ⟨⟨hp [0] [⟨"View", "Key"⟩] (.column "c" "Id" .int64) [1, 0]
    [⟨"View", "Key"⟩, ⟨"Key", "Id"⟩] (.column "c" "Id" .int64) ?_ ?_ ?_ ?_, by decide⟩,
    hn, _, mapping, rfl, hi, hs⟩
  all_goals decide

end Binding

end QueryShaping
