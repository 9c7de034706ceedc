import Mathlib.Data.List.Nodup
import QueryShaping.Proofs.QueryId
import QueryShaping.Serial.Address
import QueryShaping.Serial.Config
import QueryShaping.Serial.DataType
import QueryShaping.Serial.Value

/-!
Serial forms read back. Main statement: whatever is written is read as what it was, and however the
fields of a record are spelled, the record is read as the same value (`forms_read_back`).
-/

namespace QueryShaping

namespace Json

/-- A JSON value that spells the fields of a record: an object that has them in any order among
others, or an array of them in order. -/
inductive Spells (record : List (String × Json)) : Json → Prop
  | object {fields others : List (String × Json)} (h : fields.Perm (record ++ others))
    (ho : ∀ f ∈ others, f.1 ∉ record.map Prod.fst) : Spells record (.object fields)
  | array : Spells record (.array (record.map Prod.snd))

theorem spells_self (record : List (String × Json)) : Spells record (.object record) := by
  have h : record.Perm (record ++ []) := by rw [List.append_nil]
  exact .object h (List.forall_mem_nil _)

variable {record fields : List (String × Json)} {j : Json}

theorem lookup_of_unique {name : String} (hm : (name, j) ∈ fields)
    (hu : ∀ k, (name, k) ∈ fields → k = j) : fields.lookup name = some j := by
  cases hl : fields.lookup name with
  | none =>
    have hn := List.lookup_eq_none_iff.mp hl (name, j) hm
    simp at hn
  | some k =>
    obtain ⟨before, after, hf, -⟩ := List.lookup_eq_some_iff.mp hl
    rw [hu k (by simp [hf])]

theorem mapM_lookup (h : ∀ p ∈ record, fields.lookup p.1 = some p.2) :
    (record.map Prod.fst).mapM (fun name => fields.lookup name) = some (record.map Prod.snd) := by
  induction record with
  | nil => rfl
  | cons p record ih =>
    obtain ⟨hp, hr⟩ := List.forall_mem_cons.mp h
    simp [List.mapM_cons, hp, ih hr]

theorem record?_of_spells (hn : (record.map Prod.fst).Nodup) (h : Spells record j) :
    j.record? (record.map Prod.fst) = some (record.map Prod.snd) := by
  cases h with
  | array => simp [record?]
  | @object fields others hf ho =>
    refine mapM_lookup fun p hp => lookup_of_unique (hf.mem_iff.mpr (List.mem_append_left _ hp)) ?_
    intro k hk
    rcases List.mem_append.mp (hf.mem_iff.mp hk) with hk | hk
    · exact congrArg Prod.snd (List.inj_on_of_nodup_map hn hk hp rfl)
    · have hm : p.1 ∈ record.map Prod.fst := List.mem_map_of_mem hp
      exact absurd hm (ho (p.1, k) hk)

end Json

namespace Serial

/-- What is written is read back, so that no two values are written alike, and what is read in any
form is written in one that reads the same. -/
structure Faithful (α : Type) [Serial α] : Prop where
  decode?_encode : ∀ x : α, decode? (encode x) = some x
  injective : ∀ x y : α, encode x = encode y → x = y
  canonical : ∀ (j : Json) (x : α), decode? j = some x → decode? (encode x) = some x

/-- A record is read alike from all spellings of its fields, of which its form is one. -/
structure Record (α : Type) [Serial α] (names : List String) : Prop where
  alike : ∀ (record : List (String × Json)) (j k : Json), record.map Prod.fst = names →
    Json.Spells record j → Json.Spells record k → (decode? j : Option α) = decode? k
  spelled : ∀ x : α, ∃ record : List (String × Json), record.map Prod.fst = names ∧
    encode x = .object record ∧ ∀ j, Json.Spells record j → decode? j = some x

variable {α : Type} [Serial α]

theorem Faithful.of_decode?_encode (h : ∀ x : α, decode? (encode x) = some x) : Faithful α := by
  refine ⟨h, fun x y he => ?_, fun _ x _ => h x⟩
  have hy : decode? (encode x) = some y := he ▸ h y
  exact Option.some.inj ((h x).symm.trans hy)

/-- A form is one of a record if only its fields are looked at. -/
theorem Record.of_record? {names : List String} (hn : names.Nodup) (hf : Faithful α)
    (hd : ∀ j k : Json, j.record? names = k.record? names → (decode? j : Option α) = decode? k)
    (he : ∀ x : α, ∃ record : List (String × Json), record.map Prod.fst = names ∧
      encode x = .object record) : Record α names := by
  have ha : ∀ (record : List (String × Json)) (j k : Json), record.map Prod.fst = names →
      Json.Spells record j → Json.Spells record k → (decode? j : Option α) = decode? k := by
    rintro record j k rfl hj hk
    exact hd j k ((Json.record?_of_spells hn hj).trans (Json.record?_of_spells hn hk).symm)
  refine ⟨ha, fun x => ?_⟩
  obtain ⟨record, hm, hx⟩ := he x
  refine ⟨record, hm, hx, fun j hj => ?_⟩
  rw [ha record j _ hm hj (Json.spells_self record), ← hx]
  exact hf.decode?_encode x

end Serial

open Serial

theorem DataType.decode?_encode : ∀ t : DataType, DataType.decode? t.encode = some t
  | .int64 | .float32 | .float64 | .bool | .string | .date | .timestamp | .valueBuffer
  | .entity _ | .object _ => rfl
  | .enumerable t => by
    rw [encode, DataType.decode?, decode?_encode t]
    rfl

theorem faithful_dataType : Faithful DataType := .of_decode?_encode DataType.decode?_encode

theorem faithful_operator : Faithful Operator := .of_decode?_encode fun op => by cases op <;> rfl

theorem faithful_policy : Faithful Policy := .of_decode?_encode fun p => by cases p <;> rfl

theorem QueryId.decode?_encode (id : QueryId) : QueryId.decode? id.encode = some id := by
  simp only [QueryId.decode?, encode, Json.string?, Option.bind_eq_bind, Option.bind_some,
    id.ofText?_hyphenated]

theorem faithful_queryId : Faithful QueryId := .of_decode?_encode QueryId.decode?_encode

theorem faithful_member : Faithful Member := .of_decode?_encode fun _ => rfl

theorem Address.mapM_decode?_encode (a : Address) :
    (a.map Member.encode).mapM Member.decode? = some a := by
  induction a with
  | nil => rfl
  | cons m a ih =>
    have hm : Member.decode? m.encode = some m := rfl
    simp [List.mapM_cons, hm, ih]

theorem faithful_address : Faithful Address := .of_decode?_encode Address.mapM_decode?_encode

theorem faithful_parameter : Faithful Parameter := by
  refine .of_decode?_encode fun ⟨name, type⟩ => ?_
  show (do let type ← DataType.decode? type.encode; return (⟨name, type⟩ : Parameter)) = _
  rw [DataType.decode?_encode]
  rfl

theorem faithful_config : Faithful Config := .of_decode?_encode fun ⟨p, _⟩ => by cases p <;> rfl

theorem record_member : Record Member ["declaring_type", "name"] :=
  .of_record? (by decide) faithful_member (fun j k h => by simp only [decode?, Member.decode?, h])
    fun _ => ⟨_, rfl, rfl⟩

theorem record_address : Record Address ["members"] :=
  .of_record? (by decide) faithful_address (fun j k h => by simp only [decode?, Address.decode?, h])
    fun _ => ⟨_, rfl, rfl⟩

theorem record_parameter : Record Parameter ["name", "data_type"] :=
  .of_record? (by decide) faithful_parameter
    (fun j k h => by simp only [decode?, Parameter.decode?, h]) fun _ => ⟨_, rfl, rfl⟩

theorem record_config : Record Config ["client_eval", "sensitive_data_logging"] :=
  .of_record? (by decide) faithful_config (fun j k h => by simp only [decode?, Config.decode?, h])
    fun _ => ⟨_, rfl, rfl⟩

namespace Value

def isFloat : Value → Bool
  | float32 _ | float64 _ => true
  | int64 _ | bool _ | string _ | date _ | timestamp _ | null => false

theorem int64?_eq_some_iff {j : Json} {n : Int64} : int64? j = some n ↔ j = .int n.toInt := by
  constructor
  · intro h
    cases j with
    | int m =>
      simp only [int64?, Option.ite_none_right_eq_some, Option.some.injEq] at h
      obtain ⟨⟨hl, hu⟩, rfl⟩ := h
      rw [Int64.toInt_ofInt_of_le hl (Int64.toInt_maxValue_add_one ▸ Int.lt_add_one_of_le hu)]
    | _ => cases h
  · rintro rfl
    rw [int64?, if_pos ⟨n.minValue_le_toInt, n.toInt_le⟩, Int64.ofInt_toInt]

theorem int32?_eq_some_iff {j : Json} {n : Int32} : int32? j = some n ↔ j = .int n.toInt := by
  constructor
  · intro h
    cases j with
    | int m =>
      simp only [int32?, Option.ite_none_right_eq_some, Option.some.injEq] at h
      obtain ⟨⟨hl, hu⟩, rfl⟩ := h
      rw [Int32.toInt_ofInt_of_le hl (Int32.toInt_maxValue_add_one ▸ Int.lt_add_one_of_le hu)]
    | _ => cases h
  · rintro rfl
    rw [int32?, if_pos ⟨n.minValue_le_toInt, n.toInt_le⟩, Int32.ofInt_toInt]

variable {j : Json} {v : Value}

theorem map_int64?_eq_some_iff (f : Int64 → Value) :
    (int64? j).map f = some v ↔ ∃ n : Int64, j = .int n.toInt ∧ v = f n := by
  simp only [Option.map_eq_some_iff, int64?_eq_some_iff, eq_comm (b := v)]

theorem decode?_int64_iff : Value.decode? (.object [("Int64", j)]) = some v ↔
    ∃ n : Int64, j = .int n.toInt ∧ v = int64 n :=
  map_int64?_eq_some_iff int64

theorem decode?_timestamp_iff : Value.decode? (.object [("Timestamp", j)]) = some v ↔
    ∃ n : Int64, j = .int n.toInt ∧ v = timestamp n :=
  map_int64?_eq_some_iff timestamp

theorem decode?_date_iff : Value.decode? (.object [("Date", j)]) = some v ↔
    ∃ n : Int32, j = .int n.toInt ∧ v = date n := by
  show (int32? j).map date = some v ↔ _
  simp only [Option.map_eq_some_iff, int32?_eq_some_iff, eq_comm (b := v)]

theorem exists_encode? (h : v.isFloat = false) : ∃ j, v.encode? = some j := by
  cases v with
  | float32 | float64 => cases h
  | _ => exact ⟨_, rfl⟩

theorem decode?_of_encode? (h : v.encode? = some j) : Value.decode? j = some v := by
  cases v with
  | float32 | float64 => cases h
  | bool | string | null =>
    obtain rfl := Option.some.inj h
    rfl
  | int64 n =>
    obtain rfl := Option.some.inj h
    exact decode?_int64_iff.mpr ⟨n, rfl, rfl⟩
  | timestamp n =>
    obtain rfl := Option.some.inj h
    exact decode?_timestamp_iff.mpr ⟨n, rfl, rfl⟩
  | date n =>
    obtain rfl := Option.some.inj h
    exact decode?_date_iff.mpr ⟨n, rfl, rfl⟩

end Value

/-- Every value but a float is read from its form, and from that of no other value; every record is
read alike from all spellings; what was read in another form reads the same in its own; and integers
are read from integers of their range alone. -/
theorem forms_read_back :
    (Faithful DataType ∧ Faithful Member ∧ Faithful Address ∧ Faithful Parameter ∧
      Faithful Operator ∧ Faithful Policy ∧ Faithful Config ∧ Faithful QueryId) ∧
    (Record Member ["declaring_type", "name"] ∧ Record Address ["members"] ∧
      Record Parameter ["name", "data_type"] ∧
      Record Config ["client_eval", "sensitive_data_logging"]) ∧
    (∀ v : Value, v.isFloat = false → ∃ j, v.encode? = some j ∧ Value.decode? j = some v ∧
      (∀ w : Value, w.encode? = some j → w = v)) ∧
    (∀ (j : Json) (v : Value), Value.decode? j = some v → v.isFloat = false →
      ∃ k, v.encode? = some k ∧ Value.decode? k = some v) ∧
    ∀ (j : Json) (v : Value),
      (Value.decode? (.object [("Int64", j)]) = some v ↔
        ∃ n : Int64, j = .int n.toInt ∧ v = .int64 n) ∧
      (Value.decode? (.object [("Timestamp", j)]) = some v ↔
        ∃ n : Int64, j = .int n.toInt ∧ v = .timestamp n) ∧
      (Value.decode? (.object [("Date", j)]) = some v ↔
        ∃ n : Int32, j = .int n.toInt ∧ v = .date n) := by
  refine ⟨⟨faithful_dataType, faithful_member, faithful_address, faithful_parameter,
    faithful_operator, faithful_policy, faithful_config, faithful_queryId⟩,
    ⟨record_member, record_address, record_parameter, record_config⟩, fun v hv => ?_,
    fun _ v _ hv => ?_,
    fun j v => ⟨Value.decode?_int64_iff, Value.decode?_timestamp_iff, Value.decode?_date_iff⟩⟩
  · obtain ⟨j, hj⟩ := Value.exists_encode? hv
    have hd : Value.decode? j = some v := Value.decode?_of_encode? hj
    exact ⟨j, hj, hd, fun w hw =>
      Option.some.inj ((Value.decode?_of_encode? hw).symm.trans hd)⟩
  · obtain ⟨k, hk⟩ := Value.exists_encode? hv
    exact ⟨k, hk, Value.decode?_of_encode? hk⟩

theorem forms_read_back_config :
    Config.decode? (.object [("sensitive_data_logging", .bool true), ("note", .null),
        ("client_eval", .string "Warn")]) = some ⟨.warn, true⟩ ∧
      Value.decode? (.object [("Date", .int 2147483648)]) = none := by
  obtain ⟨-, ⟨-, -, -, hc⟩, -, -, hi⟩ := forms_read_back
  constructor
  · let record := [("client_eval", Json.string "Warn"), ("sensitive_data_logging", .bool true)]
    have hp : [("sensitive_data_logging", .bool true), ("note", .null),
        ("client_eval", .string "Warn")].Perm (record ++ [("note", .null)]) :=
      List.perm_append_singleton ("client_eval", Json.string "Warn") [_, _]
    have ho : ∀ f ∈ [("note", Json.null)], f.1 ∉ record.map Prod.fst :=
      List.forall_mem_singleton.mpr (by decide)
    exact hc.alike record _ _ rfl (.object hp ho) (Json.spells_self record)
  · cases hd : Value.decode? (.object [("Date", .int 2147483648)]) with
    | none => rfl
    | some v =>
      obtain ⟨n, hn, -⟩ := (hi _ v).2.2.mp hd
      have hle : n.toInt ≤ 2147483647 := n.toInt_le
      injection hn with hn
      omega

end QueryShaping
