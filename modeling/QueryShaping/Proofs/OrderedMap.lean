import Mathlib.Data.List.Basic
import Mathlib.Data.List.Nodup
import Mathlib.Data.List.Perm.Subperm
import QueryShaping.OrderedMap

/-!
Ordered maps filled from a list. Main statements: the keys come in the order in which the list
first has them (`keys_ofList`), a look-up finds the last value that the list has for the key
(`get?_ofList`), and two maps are the same exactly when every look-up agrees (`same_iff`). Keys and
values may be replaced before or after a map is filled (`ofList_map`).
-/

namespace QueryShaping

section addNew

variable {α : Type} [DecidableEq α]

/-- Puts an element last, unless the list has it. -/
def addNew (l : List α) (a : α) : List α := if a ∈ l then l else l ++ [a]

variable [BEq α] [LawfulBEq α]

theorem foldl_addNew (as l : List α) :
    as.foldl addNew l = l ++ (as.filter (· ∉ l)).eraseDups := by
  induction as generalizing l with
  | nil => simp
  | cons a as ih =>
    rw [List.foldl_cons, ih]
    by_cases ha : a ∈ l
    · simp [addNew, ha]
    · have hf : as.filter (· ∉ l ++ [a]) = (as.filter (· ∉ l)).filter (fun b => !b == a) := by
        rw [List.filter_filter]
        exact List.filter_congr fun b _ => by by_cases hb : b = a <;> simp [hb]
      rw [addNew, if_neg ha, hf, List.filter_cons_of_pos (by simpa using ha), List.eraseDups_cons,
        List.append_assoc, List.singleton_append]

omit [DecidableEq α] in
theorem nodup_eraseDups : ∀ l : List α, l.eraseDups.Nodup
  | [] => List.nodup_nil
  | a :: l => by
    rw [List.eraseDups_cons, List.nodup_cons, List.mem_eraseDups]
    exact ⟨by simp, nodup_eraseDups (l.filter fun b => !b == a)⟩
termination_by l => l.length
decreasing_by exact Nat.lt_succ_of_le (List.length_filter_le _ l)

omit [DecidableEq α] in
theorem eraseDups_of_nodup {l : List α} (h : l.Nodup) : l.eraseDups = l := by
  induction l with
  | nil => rfl
  | cons a l ih =>
    obtain ⟨ha, hl⟩ := List.nodup_cons.mp h
    have hf : l.filter (fun b => !b == a) = l := by
      refine List.filter_eq_self.mpr fun b hb => ?_
      have hne : b ≠ a := fun he => ha (he ▸ hb)
      simpa using hne
    rw [List.eraseDups_cons, hf, ih hl]

end addNew

namespace Entries

variable {α β : Type} [DecidableEq α]

theorem get?_eq_none_iff {k : α} {es : List (α × β)} : get? k es = none ↔ k ∉ es.map Prod.fst := by
  rw [← Option.not_isSome_iff_eq_none, get?_isSome_iff]

theorem eq_of_get?_eq : ∀ {es fs : List (α × β)}, es.map Prod.fst = fs.map Prod.fst →
    (es.map Prod.fst).Nodup → (∀ k, get? k es = get? k fs) → es = fs
  | [], [], _, _, _ => rfl
  | [], _ :: _, hk, _, _ | _ :: _, [], hk, _, _ => by simp at hk
  | (j, v) :: es, (j', w) :: fs, hk, hn, hg => by
    obtain ⟨rfl, hr⟩ := List.cons_eq_cons.mp hk
    obtain ⟨hj, hn⟩ := List.nodup_cons.mp hn
    have hv := hg j
    simp only [get?, if_true, Option.some.injEq] at hv
    have ht : es = fs := by
      refine eq_of_get?_eq hr hn fun k => ?_
      by_cases hjk : j = k
      · subst hjk
        rw [get?_eq_none_iff.mpr hj, get?_eq_none_iff.mpr (hr ▸ hj)]
      · simpa only [get?, hjk, if_false] using hg k
    rw [hv, ht]

section map

variable {α' β' : Type} [DecidableEq α'] {g : α → α'}

theorem insert_map (hg : Function.Injective g) (u : β → β') (k : α) (v : β) (es : List (α × β)) :
    insert (g k) (u v) (es.map (Prod.map g u)) = (insert k v es).map (Prod.map g u) := by
  induction es with
  | nil => rfl
  | cons e es ih =>
    by_cases he : e.1 = k
    · simp [insert, he]
    · have hn : g e.1 ≠ g k := fun hk => he (hg hk)
      simp [insert, he, hn, ih]

theorem get?_map (hg : Function.Injective g) (u : β → β') (k : α) (es : List (α × β)) :
    get? (g k) (es.map (Prod.map g u)) = (get? k es).map u := by
  induction es with
  | nil => rfl
  | cons e es ih =>
    by_cases he : e.1 = k
    · simp [get?, he]
    · have hn : g e.1 ≠ g k := fun hk => he (hg hk)
      simp [get?, he, hn, ih]

end map

end Entries

namespace OrderedMap

section map

variable {α β α' β' : Type} {g : α → α'} (hg : Function.Injective g) (u : β → β')

/-- Other keys, no two of which become one, and other values in the same order. -/
def map (m : OrderedMap α β) : OrderedMap α' β' :=
  ⟨m.entries.map (Prod.map g u), by
    have hk : (m.entries.map (Prod.map g u)).map Prod.fst = m.keys.map g := by
      rw [keys, List.map_map, List.map_map]
      rfl
    rw [hk]
    exact List.Nodup.map hg m.nodup_keys⟩

theorem size_map (m : OrderedMap α β) : (m.map hg u).size = m.size := List.length_map _

variable [DecidableEq α] [DecidableEq α']

theorem get?_map (m : OrderedMap α β) (k : α) : (m.map hg u).get? (g k) = (m.get? k).map u :=
  Entries.get?_map hg u k m.entries

theorem insert_map (m : OrderedMap α β) (k : α) (v : β) :
    (m.map hg u).insert (g k) (u v) = (m.insert k v).map hg u := by
  simp only [insert, map, Entries.insert_map hg]

theorem ofList_map (es : List (α × β)) :
    ofList (es.map (Prod.map g u)) = (ofList es).map hg u := by
  suffices hm : ∀ m : OrderedMap α β,
      (m.map hg u).insertAll (es.map (Prod.map g u)) = (m.insertAll es).map hg u from hm empty
  induction es with
  | nil => exact fun _ => rfl
  | cons e es ih =>
    intro m
    rw [insertAll, List.map_cons, List.foldl_cons, Prod.map_fst, Prod.map_snd, insert_map,
      ← insertAll, ih, insertAll, insertAll, List.foldl_cons]

end map

variable {α β : Type} [DecidableEq α]

theorem get?_eq_none_iff {m : OrderedMap α β} {k : α} : m.get? k = none ↔ k ∉ m.keys :=
  Entries.get?_eq_none_iff

theorem keys_subset_of_entries {m n : OrderedMap α β}
    (h : ∀ e ∈ m.entries, n.get? e.1 = some e.2) : m.keys ⊆ n.keys := by
  intro k hk
  obtain ⟨e, he, rfl⟩ := List.mem_map.mp hk
  rw [← contains_iff, contains, h e he]
  rfl

/-- A map that has all entries of another and is no larger has no other keys. -/
theorem keys_perm_of_entries {m n : OrderedMap α β} (hs : m.size = n.size)
    (h : ∀ e ∈ m.entries, n.get? e.1 = some e.2) : m.keys.Perm n.keys := by
  apply (List.subperm_of_subset m.nodup_keys (keys_subset_of_entries h)).perm_of_length_le
  simp only [keys, List.length_map]
  exact Nat.le_of_eq hs.symm

theorem same_iff [DecidableEq β] {m n : OrderedMap α β} :
    m.same n = true ↔ ∀ k, m.get? k = n.get? k := by
  rw [same, Bool.and_eq_true, decide_eq_true_iff, List.all_eq_true]
  simp only [decide_eq_true_iff]
  constructor
  · rintro ⟨hs, h⟩ k
    cases hk : m.get? k with
    | some v => exact (h (k, v) (get?_eq_some_iff.mp hk)).symm
    | none =>
      have hn : k ∉ n.keys := fun hn =>
        get?_eq_none_iff.mp hk ((keys_perm_of_entries hs h).mem_iff.mpr hn)
      exact (get?_eq_none_iff.mpr hn).symm
  · intro h
    have hp : m.keys.Perm n.keys := by
      apply (List.perm_ext_iff_of_nodup m.nodup_keys n.nodup_keys).mpr
      intro k
      exact not_iff_not.mp (by rw [← keys, ← keys, ← get?_eq_none_iff, ← get?_eq_none_iff, h k])
    refine ⟨?_, fun e he => ?_⟩
    · have hl := hp.length_eq
      rwa [keys, keys, List.length_map, List.length_map] at hl
    · rw [← h e.1]
      exact get?_eq_some_iff.mpr he

/-- The order of the keys and the look-ups determine a map. -/
theorem ext_get? {m n : OrderedMap α β}
    (hk : m.keys = n.keys) (hg : ∀ k, m.get? k = n.get? k) : m = n := by
  have he : m.entries = n.entries := Entries.eq_of_get?_eq hk m.nodup_keys hg
  cases m
  cases n
  simp_all only

theorem keys_insertAll (m : OrderedMap α β) (es : List (α × β)) :
    (m.insertAll es).keys = (es.map Prod.fst).foldl addNew m.keys := by
  induction es generalizing m with
  | nil => rfl
  | cons e es ih =>
    have hm : (m.insert e.1 e.2).keys = addNew m.keys e.1 := keys_insert m e.1 e.2
    rw [insertAll, List.foldl_cons, ← insertAll, ih, hm, List.map_cons, List.foldl_cons]

variable [BEq α] [LawfulBEq α]

theorem get?_insertAll (m : OrderedMap α β) (es : List (α × β)) (k : α) :
    (m.insertAll es).get? k = (es.reverse.lookup k).or (m.get? k) := by
  induction es generalizing m with
  | nil => rfl
  | cons e es ih =>
    obtain ⟨j, v⟩ := e
    rw [insertAll, List.foldl_cons, ← insertAll, ih, get?_insert, List.reverse_cons,
      List.lookup_append, Option.or_assoc, List.lookup_cons, List.lookup_nil]
    by_cases hj : j = k
    · simp [hj]
    · have hk : (k == j) = false := by simpa using Ne.symm hj
      simp [hj, hk]

theorem keys_ofList (es : List (α × β)) : (ofList es).keys = (es.map Prod.fst).eraseDups := by
  rw [ofList, keys_insertAll, foldl_addNew]
  simp [keys, empty]

theorem get?_ofList (es : List (α × β)) (k : α) : (ofList es).get? k = es.reverse.lookup k := by
  rw [ofList, get?_insertAll, get?_empty, Option.or_none]

/-- The last value that comes with a key counts. -/
theorem get?_ofList_last {before after : List (α × β)} {k : α} {v : β}
    (hk : k ∉ after.map Prod.fst) : (ofList (before ++ (k, v) :: after)).get? k = some v := by
  rw [get?_ofList, List.lookup_eq_some_iff]
  refine ⟨after.reverse, before.reverse, by simp, fun e he => ?_⟩
  have hne : k ≠ e.1 := fun hke => hk (hke ▸ List.mem_map_of_mem (List.mem_reverse.mp he))
  simpa using hne

/-- Where the keys of the list are distinct, nothing is lost. -/
theorem get?_ofList_of_mem {es : List (α × β)} (h : (es.map Prod.fst).Nodup) {k : α} {v : β}
    (hm : (k, v) ∈ es) : (ofList es).get? k = some v := by
  obtain ⟨before, after, rfl⟩ := List.append_of_mem hm
  apply get?_ofList_last
  rw [List.map_append, List.map_cons, List.nodup_append, List.nodup_cons] at h
  exact h.2.1.1

/-- A map is filled anew by what it has, if the keys come in its order. -/
theorem ofList_eq {m : OrderedMap α β} {es : List (α × β)}
    (hk : (es.map Prod.fst).eraseDups = m.keys) (hv : ∀ e ∈ es, m.get? e.1 = some e.2) :
    ofList es = m := by
  have hkeys : (ofList es).keys = m.keys := (keys_ofList es).trans hk
  refine ext_get? hkeys fun k => ?_
  cases hg : (ofList es).get? k with
  | none => rw [eq_comm, get?_eq_none_iff, ← hkeys, ← get?_eq_none_iff, hg]
  | some v =>
    rw [get?_ofList, List.lookup_eq_some_iff] at hg
    obtain ⟨before, after, he, -⟩ := hg
    have hm : (k, v) ∈ es := by
      rw [← List.mem_reverse, he]
      simp
    exact (hv (k, v) hm).symm

/-- Without doubles a list is the map that it fills. -/
theorem ofList_of_nodup {es : List (α × β)} (h : (es.map Prod.fst).Nodup) : ofList es = ⟨es, h⟩ :=
  ofList_eq (eraseDups_of_nodup h) fun _ he => get?_eq_some_iff.mpr he

section filterMap

variable {γ : Type} {g : β → Option γ} {es : List (α × β)}

omit [DecidableEq α] [LawfulBEq α] in
theorem lookup_filterMap (h : ∀ e ∈ es, g e.2 ≠ none) (k : α) :
    (es.filterMap fun e => (g e.2).map fun v => (e.1, v)).lookup k = (es.lookup k).bind g := by
  induction es with
  | nil => rfl
  | cons e es ih =>
    obtain ⟨he, hes⟩ := List.forall_mem_cons.mp h
    obtain ⟨v, hv⟩ := Option.ne_none_iff_exists'.mp he
    rw [List.filterMap_cons_some (by rw [hv, Option.map_some]), List.lookup_cons, List.lookup_cons,
      ih hes]
    split
    · rw [Option.bind_some, hv]
    · rfl

omit [DecidableEq α] [BEq α] [LawfulBEq α] in
theorem map_fst_filterMap (h : ∀ e ∈ es, g e.2 ≠ none) :
    (es.filterMap fun e => (g e.2).map fun v => (e.1, v)).map Prod.fst = es.map Prod.fst := by
  induction es with
  | nil => rfl
  | cons e es ih =>
    obtain ⟨he, hes⟩ := List.forall_mem_cons.mp h
    obtain ⟨v, hv⟩ := Option.ne_none_iff_exists'.mp he
    rw [List.filterMap_cons_some (by rw [hv, Option.map_some]), List.map_cons, List.map_cons,
      ih hes]

/-- The values of a list may be replaced before or after a map is filled from it. -/
theorem get?_ofList_filterMap (h : ∀ e ∈ es, g e.2 ≠ none) (k : α) :
    (ofList (es.filterMap fun e => (g e.2).map fun v => (e.1, v))).get? k =
      ((ofList es).get? k).bind g := by
  rw [get?_ofList, get?_ofList, ← List.filterMap_reverse]
  exact lookup_filterMap (fun e he => h e (List.mem_reverse.mp he)) k

theorem keys_ofList_filterMap (h : ∀ e ∈ es, g e.2 ≠ none) :
    (ofList (es.filterMap fun e => (g e.2).map fun v => (e.1, v))).keys = (ofList es).keys := by
  rw [keys_ofList, keys_ofList, map_fst_filterMap h]

end filterMap

end OrderedMap

end QueryShaping
