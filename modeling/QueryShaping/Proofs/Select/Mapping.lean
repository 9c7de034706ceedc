import Mathlib.Data.Finset.Card
import QueryShaping.Proofs.OrderedMap
import QueryShaping.Select

/-!
Mappings that are filled entry by entry. Main statement: whatever the entries, the addresses are
listed as they first came, a look-up finds the last fragment that came for its address, every
insertion answers what a look-up found before it, and two mappings are the same exactly when their
look-ups agree, so that the order of entries with different addresses shows in the list alone
(`fill_exact`).
-/

namespace QueryShaping

section order

variable {α : Type} [BEq α] [LawfulBEq α]

/-- The list has what was seen, each element once, in the order of the first sights. -/
structure ListsFirst (listed seen : List α) : Prop where
  mem_iff : ∀ a, a ∈ listed ↔ a ∈ seen
  pairwise : listed.Pairwise fun a b => seen.idxOf a < seen.idxOf b

variable {listed seen : List α}

omit [LawfulBEq α] in
theorem ListsFirst.nodup (h : ListsFirst listed seen) : listed.Nodup :=
  h.pairwise.imp fun {a b} (hlt : seen.idxOf a < seen.idxOf b) (heq : a = b) =>
    absurd (congrArg seen.idxOf heq) (Nat.ne_of_lt hlt)

theorem listsFirst_addNew [DecidableEq α] (h : ListsFirst listed seen) (a : α) :
    ListsFirst (addNew listed a) (seen ++ [a]) := by
  have hp : listed.Pairwise fun b c => (seen ++ [a]).idxOf b < (seen ++ [a]).idxOf c := by
    refine h.pairwise.imp_of_mem fun {b c} hb hc hlt => ?_
    rwa [List.idxOf_append_of_mem ((h.mem_iff b).mp hb),
      List.idxOf_append_of_mem ((h.mem_iff c).mp hc)]
  by_cases ha : a ∈ listed
  · rw [addNew, if_pos ha]
    refine ⟨fun b => ?_, hp⟩
    have hs : b = a → b ∈ seen := fun hb => hb ▸ (h.mem_iff a).mp ha
    simpa [h.mem_iff b] using hs
  · rw [addNew, if_neg ha]
    refine ⟨fun b => by simp [h.mem_iff b], List.pairwise_append.mpr ⟨hp, by simp, ?_⟩⟩
    intro b hb c hc
    have hbs : b ∈ seen := (h.mem_iff b).mp hb
    have has : a ∉ seen := fun hm => ha ((h.mem_iff a).mpr hm)
    rw [List.mem_singleton.mp hc, List.idxOf_append_of_mem hbs, List.idxOf_append_of_notMem has]
    exact Nat.lt_of_lt_of_le (List.idxOf_lt_length_of_mem hbs) (Nat.le_add_right _ _)

theorem listsFirst_foldl_addNew [DecidableEq α] (h : ListsFirst listed seen) (as : List α) :
    ListsFirst (as.foldl addNew listed) (seen ++ as) := by
  induction as generalizing listed seen with
  | nil => simpa using h
  | cons a as ih =>
    have hr := ih (listsFirst_addNew h a)
    rwa [List.append_assoc, List.singleton_append] at hr

end order

namespace OrderedMap

variable {α β : Type} [DecidableEq α]

/-- Inserts one entry after the other, and answers the values that gave way. -/
def exchangeAll (m : OrderedMap α β) : List (α × β) → List (Option β) × OrderedMap α β
  | [] => ([], m)
  | e :: es =>
    let (old, m) := m.exchange e.1 e.2
    let (olds, m) := exchangeAll m es
    (old :: olds, m)

variable {m n : OrderedMap α β}

theorem exchangeAll_cons (m : OrderedMap α β) (e : α × β) (es : List (α × β)) :
    m.exchangeAll (e :: es) =
      (m.get? e.1 :: ((m.insert e.1 e.2).exchangeAll es).1,
        ((m.insert e.1 e.2).exchangeAll es).2) := by
  rw [exchangeAll, exchange_eq]

theorem exchangeAll_snd (m : OrderedMap α β) (es : List (α × β)) :
    (m.exchangeAll es).2 = m.insertAll es := by
  induction es generalizing m with
  | nil => rfl
  | cons e es ih => rw [exchangeAll_cons, ih, insertAll, insertAll, List.foldl_cons]

theorem length_exchangeAll (m : OrderedMap α β) (es : List (α × β)) :
    (m.exchangeAll es).1.length = es.length := by
  induction es generalizing m with
  | nil => rfl
  | cons e es ih => rw [exchangeAll_cons, List.length_cons, List.length_cons, ih]

/-- Each insertion answers what the map has before it. -/
theorem getElem?_exchangeAll (m : OrderedMap α β) (before : List (α × β)) (e : α × β)
    (after : List (α × β)) :
    (m.exchangeAll (before ++ e :: after)).1[before.length]? =
      some ((m.exchangeAll before).2.get? e.1) := by
  induction before generalizing m with
  | nil => rw [List.nil_append, exchangeAll_cons, List.length_nil, List.getElem?_cons_zero]; rfl
  | cons b before ih =>
    rw [List.cons_append, exchangeAll_cons, List.length_cons, List.getElem?_cons_succ, ih,
      exchangeAll_cons]

theorem listsFirst_keys_ofList [BEq α] [LawfulBEq α] (es : List (α × β)) :
    ListsFirst (ofList es).keys (es.map Prod.fst) := by
  have h : ListsFirst ([] : List α) [] := ⟨fun _ => .rfl, .nil⟩
  rw [ofList, keys_insertAll]
  exact listsFirst_foldl_addNew h _

theorem size_ofList (es : List (α × β)) :
    (ofList es).size = (es.map Prod.fst).toFinset.card := by
  have h := listsFirst_keys_ofList es
  have hf : (ofList es).keys.toFinset = (es.map Prod.fst).toFinset :=
    Finset.ext fun a => by rw [List.mem_toFinset, List.mem_toFinset, h.mem_iff]
  rw [← hf, List.toFinset_card_of_nodup h.nodup, keys, List.length_map]
  rfl

theorem get?_insertAll_congr (h : ∀ k, m.get? k = n.get? k) (es : List (α × β)) (k : α) :
    (m.insertAll es).get? k = (n.insertAll es).get? k := by
  rw [get?_insertAll, get?_insertAll, h k]

theorem get?_insert_comm (m : OrderedMap α β) {e e' : α × β} (h : e.1 ≠ e'.1) (k : α) :
    ((m.insert e.1 e.2).insert e'.1 e'.2).get? k = ((m.insert e'.1 e'.2).insert e.1 e.2).get? k := by
  simp only [get?_insert]
  split
  · next hk => rw [if_neg (hk ▸ h)]
  · rfl

theorem get?_ofList_swap (before : List (α × β)) {e e' : α × β} (h : e.1 ≠ e'.1)
    (after : List (α × β)) (k : α) :
    (ofList (before ++ e :: e' :: after)).get? k = (ofList (before ++ e' :: e :: after)).get? k := by
  simp only [ofList, insertAll, List.foldl_append, List.foldl_cons]
  exact get?_insertAll_congr (get?_insert_comm _ h) after k

end OrderedMap

namespace Mapping

/-- Fills a mapping from nothing, and answers what gave way at each entry. -/
def fill (es : List (Address × Fragment)) : List (Option Fragment) × Mapping :=
  OrderedMap.exchangeAll ∅ es

theorem fill_snd (es : List (Address × Fragment)) : (fill es).2 = .ofList es :=
  OrderedMap.exchangeAll_snd ∅ es

/-- What a mapping has after it was filled, and what each insertion answers. Two mappings are the
same if their look-ups agree, so that neighbours with different addresses may come in either order. -/
theorem fill_exact (es : List (Address × Fragment)) :
    let m := (fill es).2
    m = .ofList es ∧
    m.keys.Nodup ∧
    ListsFirst m.keys (es.map Prod.fst) ∧
    m.size = (es.map Prod.fst).toFinset.card ∧
    (∀ a ∉ es.map Prod.fst, m.get? a = none) ∧
    (fill es).1.length = es.length ∧
    (∀ before a f after, es = before ++ (a, f) :: after →
      (fill es).1[before.length]? = some ((fill before).2.get? a) ∧
      (a ∉ after.map Prod.fst → m.get? a = some f)) ∧
    (∀ fs, m.same (fill fs).2 = true ↔ ∀ a, m.get? a = (fill fs).2.get? a) ∧
    ∀ before e e' after, es = before ++ e :: e' :: after → e.1 ≠ e'.1 →
      m.same (fill (before ++ e' :: e :: after)).2 = true := by
  intro m
  have hm : m = .ofList es := fill_snd es
  have hf : ListsFirst m.keys (es.map Prod.fst) := hm ▸ OrderedMap.listsFirst_keys_ofList es
  refine ⟨hm, hf.nodup, hf, hm ▸ OrderedMap.size_ofList es, fun a ha => ?_,
    OrderedMap.length_exchangeAll ∅ es, ?_, fun fs => OrderedMap.same_iff, ?_⟩
  · exact OrderedMap.get?_eq_none_iff.mpr fun hk => ha ((hf.mem_iff a).mp hk)
  · intro before a f after he
    refine ⟨?_, fun hk => ?_⟩
    · rw [he]
      exact OrderedMap.getElem?_exchangeAll ∅ before (a, f) after
    · rw [hm, he]
      exact OrderedMap.get?_ofList_last hk
  · intro before e e' after he hne
    rw [OrderedMap.same_iff, fill_snd, hm, he]
    exact OrderedMap.get?_ofList_swap before hne after

theorem fill_exact_again :
    let id : Fragment := .column "c" "Id" .int64
    let key : Fragment := .column "c" "CustomerId" .int64
    let name : Fragment := .column "c" "Name" .string
    let m := (fill [([⟨"View", "Id"⟩], id), ([⟨"View", "Name"⟩], name), ([⟨"View", "Id"⟩], key)]).2
    m.get? [⟨"View", "Id"⟩] = some key ∧ m.get? .root = none ∧
      m.same (fill [([⟨"View", "Id"⟩], id), ([⟨"View", "Id"⟩], key), ([⟨"View", "Name"⟩], name)]).2 =
        true := by
  intro id key name m
  obtain ⟨-, -, -, -, hn, -, hl, -, hs⟩ :=
    fill_exact [([⟨"View", "Id"⟩], id), ([⟨"View", "Name"⟩], name), ([⟨"View", "Id"⟩], key)]
  refine ⟨(hl [_, _] _ _ [] rfl).2 (by decide), hn _ (by decide), ?_⟩
  exact hs [([⟨"View", "Id"⟩], id)] ([⟨"View", "Name"⟩], name) ([⟨"View", "Id"⟩], key) [] rfl
    (by decide)

end Mapping

end QueryShaping
