import QueryShaping.Proofs.Binding.Visits
import QueryShaping.Proofs.Shape.Positions

/-!
Where a server pass may record. The pass goes through the positions that members lead to, in order
(`visited_eq_positions`), and what it records comes from some of them (`recordings_eq_sites`). Main
statements: if the address of one of these starts with that of another, the two part at a member that
one construction names twice (`partAtMember_of_mem_sites`), so that recorded addresses are distinct
where no construction does so (`nodup_recordings`).
-/

namespace QueryShaping.Binding.Server

section visits

/-- What the pass visits below a part: nothing unless the part comes with a member. -/
def visitedPart (path : Address) (c : Option Member × Shape) : List (Address × Shape) :=
  match c.1 with
  | some m => visited (path.child m) c.2
  | none => []

theorem visitedFields_eq (path : Address) (fs : List (Member × Shape)) :
    visitedFields path fs = (fs.map fun f => (some f.1, f.2)).flatMap (visitedPart path) := by
  induction fs with
  | nil => rfl
  | cons f fs ih =>
    rw [visitedFields, ih, List.map_cons, List.flatMap_cons]
    rfl

theorem flatMap_visitedPart_none (path : Address) (ss : List Shape) :
    (ss.map fun s => ((none : Option Member), s)).flatMap (visitedPart path) = [] := by
  rw [List.flatMap_map]
  exact List.flatMap_eq_nil_iff.mpr fun _ _ => rfl

theorem visitedArgs_eq (path : Address) (args : Args Shape) :
    visitedArgs path args = args.parts.flatMap (visitedPart path) := by
  cases args with
  | positional values => exact (flatMap_visitedPart_none path values).symm
  | named fields => exact visitedFields_eq path fields

theorem visited_eq (path : Address) (s : Shape) :
    visited path s = (path, s) :: s.parts.flatMap (visitedPart path) := by
  cases s with
  | construct type args => rw [visited, visitedArgs_eq, Shape.parts]
  | memberInit type args assignments =>
    rw [visited, visitedArgs_eq, visitedFields_eq, Shape.parts, List.flatMap_append]
  | call function args type => rw [visited, Shape.parts, flatMap_visitedPart_none]
  | entity | attach | parameter | group | constant | column | binary | reference | lookup => rfl

/-- A position with the node there and the path to it, if the path is made of members alone. -/
def place? (path : Address) (s : Shape) (p : Position) : Option (Address × Shape) :=
  (s.address? p).bind fun a => (s.at? p).map fun n => (path ++ a, n)

theorem place?_cons {s : Shape} {c : Option Member × Shape} {i : Nat} (h : s.parts[i]? = some c)
    (path : Address) (p : Position) :
    place? path s (i :: p) = c.1.bind fun m => place? (path.child m) c.2 p := by
  obtain ⟨m?, n⟩ := c
  rw [place?, Shape.address?_cons h, Shape.at?_cons h]
  cases m? with
  | none => rfl
  | some m => cases ha : n.address? p <;> simp [place?, ha, Address.child]

theorem visited_eq_positions (path : Address) (s : Shape) :
    visited path s = s.positions.filterMap (place? path s) := by
  induction s using Shape.children_induction generalizing path with
  | node s ih =>
    have hparts : s.parts.flatMap (visitedPart path) =
        s.parts.zipIdx.flatMap fun c => visitedPart path c.1 := by
      conv_lhs => rw [← List.zipIdx_map_fst 0 s.parts, List.flatMap_map]
    have hroot : place? path s [] = some (path, s) := by
      simp [place?, Shape.address?, Shape.at?, Address.root]
    rw [visited_eq, Shape.positions_eq, List.filterMap_cons_some hroot, hparts,
      List.filterMap_flatMap, ← Shape.map_snd_parts, List.zipIdx_map, List.flatMap_map]
    refine congrArg (_ :: ·) (List.flatMap_congr fun d hd => ?_)
    obtain ⟨c, i⟩ := d
    have hc : s.parts[i]? = some c := List.mem_zipIdx_iff_getElem?.mp hd
    have hm : c.2 ∈ s.children := List.mem_of_getElem? (Shape.getElem?_children hc)
    have hp : place? path s ∘ (i :: ·) = fun p => c.1.bind fun m => place? (path.child m) c.2 p :=
      funext (place?_cons hc path)
    show visitedPart path c = (c.2.positions.map (i :: ·)).filterMap (place? path s)
    rw [List.filterMap_map, hp]
    obtain ⟨_ | m, n⟩ := c
    · exact (List.filterMap_eq_nil_iff.mpr fun _ _ => rfl).symm
    · exact ih n hm (path.child m)

end visits

section sites

variable (store : Store) (behind? : Reference → Option Fragment)

/-- A position with its address and the fragment that is recorded there, if one is. -/
def siteAt? (s : Shape) (p : Position) : Option (Position × Address × Fragment) := do
  let a ← s.address? p
  let n ← s.at? p
  let f ← fragment? store behind? n
  return (p, a, f)

/-- The positions whose fragments are recorded, each with its address and its fragment. -/
def sites (s : Shape) : List (Position × Address × Fragment) :=
  s.positions.filterMap (siteAt? store behind? s)

variable {store behind?} {s : Shape} {p : Position} {a : Address} {f : Fragment}

theorem siteAt?_eq_some_iff {l : Position × Address × Fragment} :
    siteAt? store behind? s p = some l ↔ l.1 = p ∧ s.address? p = some l.2.1 ∧
      ∃ n, s.at? p = some n ∧ fragment? store behind? n = some l.2.2 := by
  simp only [siteAt?, Option.bind_eq_bind, Option.bind_eq_some_iff, Option.pure_def,
    Option.some.injEq]
  constructor
  · rintro ⟨a, ha, n, hn, f, hf, rfl⟩
    exact ⟨rfl, ha, n, hn, hf⟩
  · rintro ⟨rfl, ha, n, hn, hf⟩
    exact ⟨_, ha, n, hn, _, hf, rfl⟩

theorem of_mem_sites (h : (p, a, f) ∈ sites store behind? s) :
    s.address? p = some a ∧ ∃ n, s.at? p = some n ∧ fragment? store behind? n = some f := by
  obtain ⟨q, -, hq⟩ := List.mem_filterMap.mp h
  obtain ⟨rfl, hl⟩ := siteAt?_eq_some_iff.mp hq
  exact hl

theorem nodup_sites (s : Shape) : ((sites store behind? s).map Prod.fst).Nodup := by
  rw [sites, List.map_filterMap]
  refine s.nodup_positions.filterMap fun p q r hp hq => ?_
  obtain ⟨l, hl, rfl⟩ := Option.map_eq_some_iff.mp hp
  obtain ⟨k, hk, hkl⟩ := Option.map_eq_some_iff.mp hq
  rw [← (siteAt?_eq_some_iff.mp hl).1, ← hkl, (siteAt?_eq_some_iff.mp hk).1]

theorem recordings_eq_sites (s : Shape) (path : Address) : recordings store behind? path s =
    (sites store behind? s).map fun l => (path ++ l.2.1, l.2.2) := by
  rw [recordings_eq, visited_eq_positions, List.filterMap_filterMap, sites, List.map_filterMap]
  refine List.filterMap_congr fun p _ => ?_
  cases ha : s.address? p with
  | none => simp [siteAt?, place?, ha]
  | some a =>
    cases hn : s.at? p with
    | none => simp [siteAt?, place?, ha, hn]
    | some n =>
      cases hf : fragment? store behind? n <;> simp [siteAt?, place?, asRecording?, ha, hn, hf]

theorem map_snd_sites (s : Shape) :
    (sites store behind? s).map Prod.snd = recordings store behind? .root s :=
  (recordings_eq_sites s .root).symm

/-- Nothing with a member stands below a node that has a fragment. -/
theorem member?_of_fragment? {n : Shape} (h : fragment? store behind? n = some f) (i : Nat) :
    n.member? i = none := by
  cases n with
  | construct | memberInit | attach | group | reference | lookup => cases h
  | call function args type =>
    rw [Shape.member?, Shape.parts, List.getElem?_map]
    cases args[i]? <;> rfl
  | binary left op right type =>
    rcases i with _ | _ | i <;> rfl
  | entity | parameter | constant | column => rfl

end sites

section separation

variable {store : Store} {behind? : Reference → Option Fragment} {s : Shape} {p q : Position}
  {a b : Address} {f g : Fragment}

theorem partAtMember_of_mem_sites (hp : (p, a, f) ∈ sites store behind? s)
    (hq : (q, b, g) ∈ sites store behind? s) (hne : p ≠ q) (hab : a <+: b) :
    s.PartAtMember p q := by
  obtain ⟨ha, n, hn, hf⟩ := of_mem_sites hp
  obtain ⟨hb, n', hn', hg⟩ := of_mem_sites hq
  exact Shape.partAtMember_of_prefix hn (member?_of_fragment? hf) hn' (member?_of_fragment? hg) ha
    hb hne hab

/-- Neither of two recordings stands at the address of the other, nor above it. -/
def Apart (e e' : Address × Fragment) : Prop := ¬ e.1 <+: e'.1 ∧ ¬ e'.1 <+: e.1

theorem pairwise_apart (h : s.NamesOnce) :
    ((sites store behind? s).map Prod.snd).Pairwise Apart := by
  refine List.pairwise_map.mpr ((List.pairwise_map.mp (nodup_sites s)).imp_of_mem ?_)
  intro l k hl hk hne
  exact ⟨fun hp => Shape.not_partAtMember h (partAtMember_of_mem_sites hl hk hne hp),
    fun hp => Shape.not_partAtMember h (partAtMember_of_mem_sites hk hl hne.symm hp)⟩

theorem nodup_of_pairwise_apart {es : List (Address × Fragment)} (h : es.Pairwise Apart) :
    (es.map Prod.fst).Nodup := by
  refine List.pairwise_map.mpr (h.imp fun {e e'} ha (heq : e.1 = e'.1) => ?_)
  have hp : e.1 <+: e.1 := List.prefix_rfl
  exact ha.1 (heq ▸ hp)

theorem nodup_recordings (s : Shape) (path : Address) (h : s.NamesOnce) :
    ((recordings store behind? path s).map Prod.fst).Nodup := by
  have hn : ((sites store behind? s).map (·.2.1)).Nodup := by
    have hn := nodup_of_pairwise_apart (@pairwise_apart store behind? s h)
    rwa [List.map_map] at hn
  rw [recordings_eq_sites, List.map_map]
  have hm := hn.map (List.append_right_injective path)
  rwa [List.map_map] at hm

end separation

end QueryShaping.Binding.Server
