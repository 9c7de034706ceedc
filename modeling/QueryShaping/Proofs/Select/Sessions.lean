import QueryShaping.Proofs.Binding.Refusal
import QueryShaping.Proofs.Select.Permanence

/-!
Sessions over several selects. Selects are made new, each with an id of its own, or by cloning, and a
family is what goes back to one new select. Main statement: families are told apart by their ids, and
no select resolves or binds a reference that was minted against another family (`isolated_run`).
-/

namespace QueryShaping

/-- A select of a session. -/
structure Session.Entry where
  /-- The place of the new select that it goes back to by cloning. -/
  family : Nat
  select : Select
  /-- The references that were minted against it. -/
  minted : List Reference

/-- The selects of a session in the order in which they were made. -/
abbrev Session := List Session.Entry

namespace Session

namespace Entry

/-- The references in the shape that an action returns. -/
def answered (e : Entry) : Select.Action → List Reference
  | .bind config store shape =>
    match (bindShape config store shape e.select).1.result with
    | .ok b => b.shape.references
    | .error _ => []
  | .mapAddress .. | .project .. | .projectBuffer _ | .install _ | .flatten => []

def mint (e : Entry) (a : Address) : Entry :=
  { e with minted := e.minted ++ [e.select.buffer a] }

def act (e : Entry) (a : Select.Action) : Entry :=
  { e with select := e.select.act a, minted := e.minted ++ e.answered a }

def clone (e : Entry) : Entry := { e with minted := [] }

/-- Minted references name the id of the select. -/
def Named (e : Entry) : Prop := ∀ r ∈ e.minted, r.query = e.select.id

theorem query_of_mem_answered {e : Entry} {a : Select.Action} {r : Reference}
    (hr : r ∈ e.answered a) : r.query = e.select.id := by
  cases a with
  | bind config store shape =>
    rcases Binding.bindShape_cases config store shape e.select with
      ⟨error, he, -⟩ | ⟨hi, ho, steps, hs⟩ | ⟨hi, steps, hs⟩
    · simp only [answered, he] at hr
      cases hr
    · simp only [answered, hs] at hr
      exact (Binding.address_of_mem_serverBound hi ho hr).1
    · simp only [answered, hs] at hr
      exact (Binding.slot_of_mem_clientBound hi hr).1
  | mapAddress | project | projectBuffer | install | flatten => cases hr

theorem Named.mint {e : Entry} (h : e.Named) (a : Address) : (e.mint a).Named := by
  intro r hr
  rcases List.mem_append.mp hr with hr | hr
  · exact h r hr
  · rw [List.mem_singleton.mp hr]
    rfl

theorem id_act (e : Entry) (a : Select.Action) : (e.act a).select.id = e.select.id :=
  (Select.exists_addAll_act e.select a).1

theorem Named.act {e : Entry} (h : e.Named) (a : Select.Action) : (e.act a).Named := by
  intro r hr
  rw [id_act]
  rcases List.mem_append.mp hr with hr | hr
  · exact h r hr
  · exact query_of_mem_answered hr

theorem named_of_nil {e : Entry} (h : e.minted = []) : e.Named := by
  intro r hr
  rw [h] at hr
  cases hr

end Entry

inductive Move where
  | new (id : QueryId)
  | ofEntity (id : QueryId) (columns : EntityColumns)
  | clone (i : Nat)
  | buffer (i : Nat) (address : Address)
  | act (i : Nat) (action : Select.Action)

/-- The id that a move draws. -/
def Move.drawn? : Move → Option QueryId
  | .new id | .ofEntity id _ => some id
  | .clone _ | .buffer .. | .act .. => none

/-- A new family is numbered by the place of its first select. -/
def step (s : Session) : Move → Session
  | .new id => s ++ [⟨s.length, .empty id, []⟩]
  | .ofEntity id columns => s ++ [⟨s.length, .ofEntity id columns, []⟩]
  | .clone i => s ++ (s[i]?.map Entry.clone).toList
  | .buffer i a => s.modify i (·.mint a)
  | .act i a => s.modify i (·.act a)

def run (s : Session) (moves : List Move) : Session := moves.foldl step s

/-- Selects have the same id exactly if they are of one family. -/
structure Sound (drawn : List QueryId) (s : Session) : Prop where
  drawn : ∀ e ∈ s, e.select.id ∈ drawn
  family_lt : ∀ e ∈ s, e.family < s.length
  family_eq_iff : ∀ e ∈ s, ∀ e' ∈ s, e.family = e'.family ↔ e.select.id = e'.select.id
  named : ∀ e ∈ s, e.Named

section steps

variable {drawn : List QueryId} {s : Session}

theorem sound_nil : Sound [] [] :=
  ⟨List.forall_mem_nil _, List.forall_mem_nil _, List.forall_mem_nil _, List.forall_mem_nil _⟩

theorem Sound.start (h : Sound drawn s) {new : Select} (hn : new.id ∉ drawn) :
    Sound (drawn ++ [new.id]) (s ++ [⟨s.length, new, []⟩]) := by
  have hid : ∀ e ∈ s, e.select.id ≠ new.id := fun e he hq => hn (hq ▸ h.drawn e he)
  have hlt : ∀ e ∈ s, e.family ≠ s.length := fun e he => Nat.ne_of_lt (h.family_lt e he)
  refine ⟨?_, ?_, ?_, ?_⟩
  · exact List.forall_mem_append.mpr ⟨fun e he => List.mem_append_left _ (h.drawn e he),
      List.forall_mem_singleton.mpr (List.mem_append_right _ List.mem_cons_self)⟩
  · rw [List.length_append]
    exact List.forall_mem_append.mpr ⟨fun e he => Nat.lt_add_right _ (h.family_lt e he),
      List.forall_mem_singleton.mpr (Nat.lt_succ_self _)⟩
  · intro e he e' he'
    rcases List.mem_append.mp he with he | he <;> rcases List.mem_append.mp he' with he' | he'
    · exact h.family_eq_iff e he e' he'
    · rw [List.mem_singleton.mp he']
      exact iff_of_false (hlt e he) (hid e he)
    · rw [List.mem_singleton.mp he]
      exact iff_of_false (hlt e' he').symm (hid e' he').symm
    · rw [List.mem_singleton.mp he, List.mem_singleton.mp he']
      exact iff_of_true rfl rfl
  · exact List.forall_mem_append.mpr ⟨h.named,
      List.forall_mem_singleton.mpr (Entry.named_of_nil rfl)⟩

/-- Entries that stand for entries of a sound session, with names kept, are sound again. -/
theorem Sound.of_forall (h : Sound drawn s) {t : Session} (hl : s.length ≤ t.length)
    (ht : ∀ e ∈ t, e.Named ∧ ∃ e' ∈ s, e.family = e'.family ∧ e.select.id = e'.select.id) :
    Sound drawn t := by
  refine ⟨fun e he => ?_, fun e he => ?_, fun e he f hf => ?_, fun e he => (ht e he).1⟩
  · obtain ⟨-, e', he', -, hid⟩ := ht e he
    rw [hid]
    exact h.drawn e' he'
  · obtain ⟨-, e', he', hfam, -⟩ := ht e he
    rw [hfam]
    exact Nat.lt_of_lt_of_le (h.family_lt e' he') hl
  · obtain ⟨-, e', he', hfam, hid⟩ := ht e he
    obtain ⟨-, f', hf', hfam', hid'⟩ := ht f hf
    rw [hfam, hid, hfam', hid']
    exact h.family_eq_iff e' he' f' hf'

theorem Sound.clone (h : Sound drawn s) (i : Nat) :
    Sound drawn (s ++ (s[i]?.map Entry.clone).toList) := by
  refine h.of_forall (by simp) fun e he => ?_
  rcases List.mem_append.mp he with he | he
  · exact ⟨h.named e he, e, he, rfl, rfl⟩
  · obtain ⟨e', hi, rfl⟩ := Option.map_eq_some_iff.mp (Option.mem_toList.mp he)
    exact ⟨Entry.named_of_nil rfl, e', List.mem_of_getElem? hi, rfl, rfl⟩

theorem Sound.modify (h : Sound drawn s) (i : Nat) {f : Entry → Entry}
    (hf : ∀ e, e.Named → (f e).Named) (hfam : ∀ e, (f e).family = e.family)
    (hid : ∀ e, (f e).select.id = e.select.id) : Sound drawn (s.modify i f) := by
  refine h.of_forall (by simp) fun e he => ?_
  obtain ⟨j, hj⟩ := List.mem_iff_getElem?.mp he
  rw [List.getElem?_modify] at hj
  obtain ⟨e', he', rfl⟩ := Option.map_eq_some_iff.mp hj
  have hm : e' ∈ s := List.mem_of_getElem? he'
  split
  · exact ⟨hf e' (h.named e' hm), e', hm, hfam e', hid e'⟩
  · exact ⟨h.named e' hm, e', hm, rfl, rfl⟩

theorem Sound.step (h : Sound drawn s) {m : Move} (hm : ∀ id ∈ m.drawn?, id ∉ drawn) :
    Sound (drawn ++ m.drawn?.toList) (s.step m) := by
  cases m with
  | new id =>
    have hn : (Select.empty id).id ∉ drawn := hm id rfl
    exact h.start hn
  | ofEntity id columns =>
    have hn : (Select.ofEntity id columns).id ∉ drawn := hm id rfl
    exact h.start hn
  | clone i => exact (List.append_nil drawn).symm ▸ h.clone i
  | buffer i a =>
    exact (List.append_nil drawn).symm ▸
      h.modify i (fun _ he => he.mint a) (fun _ => rfl) fun _ => rfl
  | act i a =>
    exact (List.append_nil drawn).symm ▸
      h.modify i (fun _ he => he.act a) (fun _ => rfl) fun e => e.id_act a

theorem Sound.run (h : Sound drawn s) {moves : List Move}
    (hn : (drawn ++ moves.filterMap Move.drawn?).Nodup) :
    Sound (drawn ++ moves.filterMap Move.drawn?) (s.run moves) := by
  induction moves generalizing drawn s with
  | nil => exact (List.append_nil drawn).symm ▸ h
  | cons m moves ih =>
    have hd : (m :: moves).filterMap Move.drawn? =
        m.drawn?.toList ++ moves.filterMap Move.drawn? := by
      cases hm : m.drawn? <;> simp [hm]
    rw [hd, ← List.append_assoc] at hn ⊢
    refine ih (h.step fun id hid hmem => ?_) hn
    have hdis := List.disjoint_of_nodup_append (List.nodup_append.mp hn).1
    exact hdis hmem (Option.mem_toList.mpr hid)

end steps

open Binding

/-- An entity that reads another query stops a bind before anything is done, unless an earlier node
does. -/
theorem bindShape_of_foreign (config : Config) (store : Store) {tree : Shape} {owner : Select}
    {before after : List Shape} {type : String} {r : Reference}
    (hs : tree.nodes = before ++ .entity type r :: after) (hq : r.query ≠ owner.id) :
    (∃ m ∈ before, ∃ e, Defect owner m e ∧ bindShape config store tree owner = (.stop e, owner)) ∨
    (∀ m ∈ before, ∀ e, ¬ Defect owner m e) ∧
      bindShape config store tree owner = (.stop (.foreignBuffer owner.id r.query), owner) := by
  have hd : Defect owner (.entity type r) (.foreignBuffer owner.id r.query) := .foreign hq
  cases hb : before.findSome? (defect? owner) with
  | some e =>
    obtain ⟨m, hm, he⟩ := List.exists_of_findSome?_eq_some hb
    refine .inl ⟨m, hm, e, defect_of_defect? he, bindShape_of_defect config store ?_⟩
    rw [hs, List.findSome?_append, hb, Option.some_or]
  | none =>
    refine .inr ⟨fun m hm => ?_, bindShape_of_defect config store ?_⟩
    · exact defect?_eq_none_iff.mp (List.findSome?_eq_none_iff.mp hb m hm)
    · rw [hs, List.findSome?_append, hb, Option.none_or, List.findSome?_cons, hd.defect?_eq]

/-- Whatever was done to the selects of a session, two of them have the same id exactly if they are
of one family. A reference minted against another family has no slot, and a shape with an entity that
reads it is refused, by that entity if no earlier node has a defect. -/
theorem isolated_run (moves : List Move) (h : (moves.filterMap Move.drawn?).Nodup) :
    let s := run [] moves
    ∀ a ∈ s, ∀ b ∈ s, (a.family = b.family ↔ a.select.id = b.select.id) ∧
      (a.family ≠ b.family → ∀ r ∈ a.minted, b.select.slot? r = none ∧
        ∀ config store tree before type after, tree.nodes = before ++ .entity type r :: after →
          let bound := bindShape config store tree b.select
          (∃ e, e.isDefect ∧ bound.1.result = .error e) ∧ bound.2 = b.select ∧
          ((∀ m ∈ before, ∀ e, Defect b.select m e → ∃ q, e = .foreignBuffer b.select.id q) →
            ∃ q, bound.1.result = .error (.foreignBuffer b.select.id q)) ∧
          ((∀ m ∈ before, ∀ e, ¬ Defect b.select m e) →
            bound.1.result = .error (.foreignBuffer b.select.id a.select.id))) := by
  have hsound : Sound (moves.filterMap Move.drawn?) (run [] moves) := sound_nil.run h
  intro s a ha b hb
  have hfam := hsound.family_eq_iff a ha b hb
  refine ⟨hfam, fun hne r hr => ?_⟩
  have hq : r.query = a.select.id := hsound.named a ha r hr
  have hid : r.query ≠ b.select.id := fun he => hne (hfam.mpr (hq ▸ he))
  refine ⟨if_neg hid, fun config store tree before type after hs => ?_⟩
  obtain ⟨m, hm, e, hd, he⟩ | ⟨hn, he⟩ := bindShape_of_foreign config store hs hid
  · refine ⟨⟨e, hd.isDefect, congrArg (·.1.result) he⟩, congrArg (·.2) he, fun hall => ?_,
      fun hnone => absurd hd (hnone m hm e)⟩
    obtain ⟨q, rfl⟩ := hall m hm e hd
    exact ⟨q, congrArg (·.1.result) he⟩
  · rw [hq] at he
    exact ⟨⟨_, rfl, congrArg (·.1.result) he⟩, congrArg (·.2) he,
      fun _ => ⟨_, congrArg (·.1.result) he⟩, fun _ => congrArg (·.1.result) he⟩

/-- Customers and a clone of them, flattened, beside a query of keys. -/
def customersAndKeys : List Move :=
  [.ofEntity ⟨1⟩ ⟨"Customer", "c", [("Id", .int64), ("Name", .string)]⟩, .clone 0, .new ⟨2⟩,
    .buffer 0 .root, .act 1 .flatten, .act 2 (.mapAddress .root (.column "k" "Id" .int64))]

/-- A customer next to a key that is bound already. -/
def keyedCustomer : Shape :=
  .construct "Pair" (.positional [.reference ⟨⟨2⟩, .slot 0, .int64⟩,
    .entity "Customer" ⟨⟨1⟩, .address .root, .valueBuffer⟩])

theorem isolated_run_customersAndKeys :
    let r : Reference := ⟨⟨1⟩, .address .root, .valueBuffer⟩
    (customersAndKeys.filterMap Move.drawn?).Nodup ∧
      ∃ a ∈ run [] customersAndKeys, ∃ b ∈ run [] customersAndKeys, r ∈ a.minted ∧
        b.select.slot? r = none ∧
        (bindShape {} standardStore (.entity "Customer" r) b.select).1.result =
          .error (.foreignBuffer ⟨2⟩ ⟨1⟩) := by
  have hn : (customersAndKeys.filterMap Move.drawn?).Nodup := by decide
  have ha : (run [] customersAndKeys)[0]? = some
      ⟨0, .ofEntity ⟨1⟩ ⟨"Customer", "c", [("Id", .int64), ("Name", .string)]⟩,
        [⟨⟨1⟩, .address .root, .valueBuffer⟩]⟩ := rfl
  have hb : (run [] customersAndKeys)[2]? = some
      ⟨2, (Select.empty ⟨2⟩).mapAddress .root (.column "k" "Id" .int64), []⟩ := rfl
  obtain ⟨-, hi⟩ := isolated_run customersAndKeys hn _ (List.mem_of_getElem? ha) _
    (List.mem_of_getElem? hb)
  obtain ⟨hs, hbind⟩ := hi (by decide) _ List.mem_cons_self
  obtain ⟨-, -, -, hr⟩ := hbind {} standardStore (.entity "Customer" _) [] "Customer" [] rfl
  exact ⟨hn, _, List.mem_of_getElem? ha, _, List.mem_of_getElem? hb, List.mem_cons_self, hs,
    hr (List.forall_mem_nil _)⟩

/-- A clone has the slots of its original's references, a value buffer is answered by whatever is
mapped at its address, and an earlier defect is the one that is reported. -/
theorem not_isolated_customersAndKeys :
    let r : Reference := ⟨⟨1⟩, .address .root, .valueBuffer⟩
    (customersAndKeys.filterMap Move.drawn?).Nodup ∧
      ∃ a b c, run [] customersAndKeys = [a, b, c] ∧ r ∈ a.minted ∧ b.select.slot? r = some 0 ∧
        (c.select.projectBuffer r).1 = .ok 0 ∧ (c.select.projectBuffer r).2 ≠ c.select ∧
        .entity "Customer" r ∈ keyedCustomer.nodes ∧
        (bindShape {} standardStore keyedCustomer c.select).1.result =
          .error (.alreadyBound .reference) := by
  refine ⟨by decide, _, _, _, rfl, by decide, by decide, by decide, by decide, by decide, rfl⟩

end Session

end QueryShaping
