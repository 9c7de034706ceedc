import QueryShaping.Proofs.Binding.Spelling

/-!
Registering functions on a store. Main statements: a store with more functions answers what it
answered before (`fragment?_mono`), so that shapes stay on the server (`bindShape_server_mono`), and
neither the order nor the case of what is registered or called makes a difference
(`bindShape_registerAll`).
-/

namespace QueryShaping

namespace Binding

section extension

variable {store store' : Store} {owner : Select} {s : Shape}
  (h : ∀ n f, store n = some f → store' n = some f)

include h

namespace Server

variable {n : Shape}

theorem obstacle?_mono (ho : obstacle? store n = none) : obstacle? store' n = none := by
  by_cases hn : n.isScalar
  · rw [obstacle?_of_isScalar hn] at ho ⊢
    cases hs : store n with
    | none => simp [hs] at ho
    | some f => simp [h n f hs]
  · cases n with
    | constant | column | binary | call => exact absurd rfl hn
    | parameter p => simp [obstacle?, hn]
    | _ => exact ho

/-- What is no obstacle has been answered already, and keeps its answer. -/
theorem fragment?_mono (ho : obstacle? store n = none) (behind? : Reference → Option Fragment) :
    fragment? store' behind? n = fragment? store behind? n := by
  by_cases hn : n.isScalar
  · rw [obstacle?_of_isScalar hn] at ho
    rw [fragment?_of_isScalar hn, fragment?_of_isScalar hn]
    cases hs : store n with
    | none => simp [hs] at ho
    | some f => exact h n f hs
  · cases n with
    | constant | column | binary | call => exact absurd rfl hn
    | parameter p => simp [fragment?, hn]
    | _ => rfl

theorem obstacles_mono (ho : obstacles store .root s = []) : obstacles store' .root s = [] :=
  obstacles_eq_nil_iff.mpr fun p hp => obstacle?_mono h (obstacles_eq_nil_iff.mp ho p hp)

theorem recordings_mono (ho : obstacles store .root s = [])
    (behind? : Reference → Option Fragment) :
    recordings store' behind? .root s = recordings store behind? .root s :=
  recordings_map (g := id) (List.map_id _).symm fun p hp =>
    fragment?_mono h (obstacles_eq_nil_iff.mp ho p hp) behind?

end Server

/-- A store that answers more leaves a shape on the server as it is. -/
theorem bindShape_server_mono {config : Config} {b : Shape}
    (hb : (bindShape config store s owner).1.result = .ok ⟨b, .server⟩) :
    (bindShape config store' s owner).1.result = .ok ⟨b, .server⟩ ∧
      (bindShape config store' s owner).2 = (bindShape config store s owner).2 := by
  obtain ⟨hi, ho, rfl, ha⟩ := eq_of_bindShape_server hb
  obtain ⟨steps, hs⟩ : (bindShape config store' s).Returns owner _ _ :=
    bindShape_server hi (Server.obstacles_mono h ho)
  have hm : serverMapping store' owner s = serverMapping store owner s :=
    congrArg OrderedMap.ofList (Server.recordings_mono h ho owner.behind?)
  rw [ha, hs, hm]
  exact ⟨rfl, rfl⟩

end extension

end Binding

namespace StoreFunctions

variable {functions more : StoreFunctions}

theorem mem_names_registerAll {names : List String} {name : String} :
    name ∈ (functions.registerAll names).names ↔
      name ∈ functions.names ∨ name ∈ names.map upperCase := by
  induction names generalizing functions with
  | nil => simp [registerAll]
  | cons n names ih =>
    have hr := @ih (functions.register n)
    rw [registerAll, List.foldl_cons, ← registerAll, hr, register, List.mem_cons, List.map_cons,
      List.mem_cons, or_assoc, or_left_comm]

theorem fragments?_of_forall₂ {ss : List Shape} {gs : List Fragment}
    (h : List.Forall₂ (fun s g => functions.fragment? s = some g) ss gs) :
    functions.fragments? ss = some gs := by
  induction h with
  | nil => rfl
  | cons hs _ ih =>
    rw [fragments?, hs, ih]
    rfl

/-- With more functions a store evaluates more, and what it evaluated before as before. -/
theorem fragment?_mono (hn : functions.names ⊆ more.names) {s : Shape} {f : Fragment}
    (h : functions.fragment? s = some f) : more.fragment? s = some f := by
  have hP : Hereditary functions fun s f => more.fragment? s = some f :=
    { column := fun _ _ _ ht => if_pos ht
      constant := fun _ _ ht => if_pos ht
      parameter := fun _ ht => if_pos ht
      binary := fun _ _ _ _ _ _ hl hr => by
        rw [fragment?, hl, hr]
        rfl
      call := fun _ _ _ _ hf ha => by
        rw [fragment?, knows, if_pos (List.contains_iff_mem.mpr (hn hf)), fragments?_of_forall₂ ha]
        rfl }
  exact hP.fragment? h

theorem fragment?_eq_of_names (h : ∀ name, name ∈ functions.names ↔ name ∈ more.names) :
    functions.fragment? = more.fragment? := by
  funext s
  apply Option.ext
  intro f
  exact ⟨fragment?_mono fun n hn => (h n).mp hn, fragment?_mono fun n hn => (h n).mpr hn⟩

/-- A store keeps all its answers when functions are registered, and with them every bind that ends
on the server. The case of a call makes no difference to the end of a bind, but that it is kept in
what is left to the client, and neither the order nor the case nor the repetition of what is
registered makes any. -/
theorem bindShape_registerAll (functions : StoreFunctions) (names : List String) :
    let more := functions.registerAll names
    (∀ s f, functions.fragment? s = some f → more.fragment? s = some f) ∧
    (∀ config s (owner : Select) b,
      (bindShape config functions.fragment? s owner).1.result = .ok ⟨b, .server⟩ →
      (bindShape config more.fragment? s owner).1.result = .ok ⟨b, .server⟩ ∧
        (bindShape config more.fragment? s owner).2 =
          (bindShape config functions.fragment? s owner).2) ∧
    (∀ config s s' (owner : Select), s.upper = s'.upper →
      let first := bindShape config functions.fragment? s owner
      let second := bindShape config functions.fragment? s' owner
      (∀ e, second.1.result = .error e ↔ first.1.result = .error e) ∧
      (∀ b mode, first.1.result = .ok ⟨b, mode⟩ →
        ∃ b', second.1.result = .ok ⟨b', mode⟩ ∧ b'.upper = b.upper) ∧
      second.2 = first.2) ∧
    ∀ names', (∀ name, name ∈ names'.map upperCase ↔ name ∈ names.map upperCase) →
      (functions.registerAll names').fragment? = more.fragment? := by
  intro more
  have hmono : ∀ s f, functions.fragment? s = some f → more.fragment? s = some f := fun s f =>
    fragment?_mono fun n hn => mem_names_registerAll.mpr (.inl hn)
  refine ⟨hmono, fun config s owner b hb => Binding.bindShape_server_mono hmono hb, ?_, ?_⟩
  · intro config s s' owner hu
    obtain ⟨hr, ha⟩ := Binding.bindShape_eq_of_upper_eq config functions.caseBlind hu owner
    obtain ⟨he, hb⟩ := Binding.alike_of_map_upper hr
    exact ⟨he, hb, ha⟩
  · intro names' hn
    apply fragment?_eq_of_names
    simp only [more, mem_names_registerAll, hn, implies_true]

open Binding in
theorem bindShape_registerAll_localize :
    let more := standard.registerAll ["localize", "Trim"]
    let lower : Shape := .call "upper" [.column "c" "Name" .string] .string
    let left : Shape :=
      .call "LOCALIZE" [.column "c" "Name" .string, .parameter ⟨"culture", .object "Culture"⟩] .string
    more.fragment? upperName = some (.call "UPPER" [.column "c" "Name" .string] .string) ∧
      (∃ b, (bindShape {} more.fragment? (customerView upperName) customers).1.result =
          .ok ⟨b, .server⟩) ∧
      (bindShape {} standardStore (customerView lower) customers).2 =
        (bindShape {} standardStore (customerView upperName) customers).2 ∧
      (∃ b, (bindShape {} standardStore (customerView left) customers).1.result =
          .ok ⟨b, .client⟩) ∧
      (standard.registerAll ["TRIM", "Localize", "trim"]).fragment? = more.fragment? := by
  intro more lower left
  obtain ⟨hf, hs, hc, hn⟩ := bindShape_registerAll standard ["localize", "Trim"]
  obtain ⟨-, hb, -⟩ := hc {} (customerView localName) (customerView left) customers (by decide)
  obtain ⟨b, hb, -⟩ := hb _ _ rfl
  obtain ⟨-, -, ha⟩ := hc {} (customerView upperName) (customerView lower) customers (by decide)
  have hnames : ["TRIM", "Localize", "trim"].map upperCase = ["TRIM", "LOCALIZE", "TRIM"] ∧
      ["localize", "Trim"].map upperCase = ["LOCALIZE", "TRIM"] := by decide
  refine ⟨hf upperName _ (by decide), ⟨_, (hs {} _ customers _ rfl).1⟩, ha, ⟨b, hb⟩, hn _ ?_⟩
  rw [hnames.1, hnames.2]
  simp [or_comm]

end StoreFunctions

end QueryShaping
