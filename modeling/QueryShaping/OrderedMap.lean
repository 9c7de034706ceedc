/-!
Maps that keep the order in which their keys first came. Main statements: what a look-up finds
after an insertion, and that two maps are the same exactly when every look-up agrees.
-/

namespace QueryShaping

namespace Entries

variable {α β : Type} [DecidableEq α]

/-- A key that is present keeps its place and gets the new value; a new key goes last. -/
def insert (k : α) (v : β) : List (α × β) → List (α × β)
  | [] => [(k, v)]
  | e :: rest => if e.1 = k then (k, v) :: rest else e :: insert k v rest

/-- Inserts, and answers the value that gave way. -/
def exchange (k : α) (v : β) : List (α × β) → Option β × List (α × β)
  | [] => (none, [(k, v)])
  | e :: rest =>
    if e.1 = k then (some e.2, (k, v) :: rest)
    else
      let (old, rest) := exchange k v rest
      (old, e :: rest)

def get? (k : α) : List (α × β) → Option β
  | [] => none
  | e :: rest => if e.1 = k then some e.2 else get? k rest

theorem exchange_eq (k : α) (v : β) (es : List (α × β)) :
    exchange k v es = (get? k es, insert k v es) := by
  induction es with
  | nil => rfl
  | cons e rest ih =>
    by_cases h : e.1 = k
    · simp [exchange, get?, insert, h]
    · simp [exchange, get?, insert, h, ih]

theorem keys_insert (k : α) (v : β) (es : List (α × β)) :
    (insert k v es).map Prod.fst =
      if k ∈ es.map Prod.fst then es.map Prod.fst else es.map Prod.fst ++ [k] := by
  induction es with
  | nil => simp [insert]
  | cons e rest ih =>
    by_cases h : e.1 = k
    · simp [insert, h]
    · have h' : k ≠ e.1 := fun he => h he.symm
      simp only [insert, h, if_false, List.map_cons, ih, List.mem_cons, h', false_or]
      split <;> simp

theorem nodup_insert (k : α) (v : β) {es : List (α × β)} (h : (es.map Prod.fst).Nodup) :
    ((insert k v es).map Prod.fst).Nodup := by
  rw [keys_insert]
  split
  · exact h
  · next hk => exact List.nodup_append.mpr ⟨h, by simp, fun a ha b hb => by
      rw [List.mem_singleton.mp hb]
      exact fun he => hk (he ▸ ha)⟩

theorem get?_insert (k j : α) (v : β) (es : List (α × β)) :
    get? j (insert k v es) = if k = j then some v else get? j es := by
  induction es with
  | nil => simp [insert, get?]
  | cons e rest ih =>
    by_cases h : e.1 = k
    · by_cases hj : k = j
      · simp [insert, get?, h, hj]
      · simp [insert, get?, h, hj]
    · by_cases hj : e.1 = j
      · subst hj
        simp [insert, get?, h, Ne.symm h]
      · simp [insert, get?, h, hj, ih]

theorem get?_eq_some_iff {k : α} {v : β} {es : List (α × β)} (h : (es.map Prod.fst).Nodup) :
    get? k es = some v ↔ (k, v) ∈ es := by
  induction es with
  | nil => simp [get?]
  | cons e rest ih =>
    obtain ⟨hn, hr⟩ := List.nodup_cons.mp h
    by_cases hk : e.1 = k
    · have hm : (k, v) ∉ rest := fun hm => hn (hk ▸ List.mem_map_of_mem hm)
      simp [get?, hk, hm, Prod.ext_iff, eq_comm]
    · have he : (k, v) ≠ e := fun he => hk (he ▸ rfl)
      simp [get?, hk, he, ih hr]

theorem get?_isSome_iff {k : α} {es : List (α × β)} :
    (get? k es).isSome = true ↔ k ∈ es.map Prod.fst := by
  induction es with
  | nil => simp [get?]
  | cons e rest ih =>
    by_cases hk : e.1 = k
    · simp [get?, hk]
    · have hk' : k ≠ e.1 := fun he => hk he.symm
      simp only [get?, hk, if_false, ih, List.map_cons, List.mem_cons, hk', false_or]

end Entries

structure OrderedMap (α β : Type) where
  entries : List (α × β)
  nodup_keys : (entries.map Prod.fst).Nodup
deriving Repr

namespace OrderedMap

variable {α β : Type}

def empty : OrderedMap α β := ⟨[], List.nodup_nil⟩

instance : EmptyCollection (OrderedMap α β) := ⟨empty⟩

instance : Inhabited (OrderedMap α β) := ⟨empty⟩

instance [DecidableEq α] [DecidableEq β] : DecidableEq (OrderedMap α β) :=
  fun m n => decidable_of_iff (m.entries = n.entries) (by cases m; cases n; simp)

def keys (m : OrderedMap α β) : List α := m.entries.map Prod.fst

def size (m : OrderedMap α β) : Nat := m.entries.length

def isEmpty (m : OrderedMap α β) : Bool := m.entries.isEmpty

variable [DecidableEq α]

def get? (m : OrderedMap α β) (k : α) : Option β := Entries.get? k m.entries

def contains (m : OrderedMap α β) (k : α) : Bool := (m.get? k).isSome

def insert (m : OrderedMap α β) (k : α) (v : β) : OrderedMap α β :=
  ⟨Entries.insert k v m.entries, Entries.nodup_insert k v m.nodup_keys⟩

/-- Inserts, and answers the value that gave way. -/
def exchange (m : OrderedMap α β) (k : α) (v : β) : Option β × OrderedMap α β :=
  let e := Entries.exchange k v m.entries
  (e.1, ⟨e.2, by
    rw [show e = _ from Entries.exchange_eq k v m.entries]
    exact Entries.nodup_insert k v m.nodup_keys⟩)

def insertAll (m : OrderedMap α β) (es : List (α × β)) : OrderedMap α β :=
  es.foldl (fun m e => m.insert e.1 e.2) m

def ofList (es : List (α × β)) : OrderedMap α β := empty.insertAll es

/-- Sameness takes no account of the order. -/
def same [DecidableEq β] (m n : OrderedMap α β) : Bool :=
  m.size = n.size && m.entries.all fun e => n.get? e.1 = some e.2

@[simp] theorem get?_empty (k : α) : (empty : OrderedMap α β).get? k = none := rfl

theorem exchange_eq (m : OrderedMap α β) (k : α) (v : β) :
    m.exchange k v = (m.get? k, m.insert k v) := by
  simp only [exchange, get?, insert, Entries.exchange_eq]

theorem get?_insert (m : OrderedMap α β) (k j : α) (v : β) :
    (m.insert k v).get? j = if k = j then some v else m.get? j :=
  Entries.get?_insert k j v m.entries

theorem keys_insert (m : OrderedMap α β) (k : α) (v : β) :
    (m.insert k v).keys = if k ∈ m.keys then m.keys else m.keys ++ [k] :=
  Entries.keys_insert k v m.entries

theorem get?_eq_some_iff {m : OrderedMap α β} {k : α} {v : β} :
    m.get? k = some v ↔ (k, v) ∈ m.entries :=
  Entries.get?_eq_some_iff m.nodup_keys

theorem contains_iff {m : OrderedMap α β} {k : α} : m.contains k = true ↔ k ∈ m.keys :=
  Entries.get?_isSome_iff

end OrderedMap

end QueryShaping
