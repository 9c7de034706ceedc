import Mathlib.Data.List.Nodup
import QueryShaping.Proofs.Shape.Exposure

/-!
Positions in a shape. Main statements: the positions of a shape are distinct (`nodup_positions`), and
two leaves of which one has an address that starts with that of the other stand below one node in
parts that come with the same member (`partAtMember_of_prefix`), so that no construction can have
named its members once (`not_partAtMember`).
-/

namespace QueryShaping

/-- The way from a shape down to a node: at each node the place of the next among the parts. -/
abbrev Position := List Nat

/-- The arguments, each with the member that it comes with, if it does. -/
def Args.parts {α : Type} : Args α → List (Option Member × α)
  | .positional values => values.map (none, ·)
  | .named fields => fields.map fun f => (some f.1, f.2)

namespace Shape

/-- The node at a position. -/
def at? : Position → Shape → Option Shape
  | [], s => some s
  | i :: p, s => s.children[i]?.bind (at? p)

/-- The direct parts, each with the member that it comes with, if it does. -/
def parts : Shape → List (Option Member × Shape)
  | construct _ args => args.parts
  | memberInit _ args assignments => args.parts ++ assignments.map fun f => (some f.1, f.2)
  | attach e _ value => [(none, e), (none, value)]
  | binary left _ right _ => [(none, left), (none, right)]
  | call _ args _ => args.map (none, ·)
  | entity .. | parameter _ | group _ | constant .. | column .. | reference _ | lookup _ => []

def member? (s : Shape) (i : Nat) : Option Member := s.parts[i]?.bind Prod.fst

/-- The members on the way to a position, if there is one at every step. -/
def address? : Position → Shape → Option Address
  | [], _ => some .root
  | i :: p, s => s.parts[i]?.bind fun c => c.1.bind fun m => (address? p c.2).map (m :: ·)

mutual
/-- All positions, each before those below it, from left to right. -/
def positions : Shape → List Position
  | .construct _ args => [] :: positionsArgs args
  | .memberInit _ args assignments =>
    [] :: (positionsArgs args ++ positionsFields args.values.length assignments)
  | .attach e _ value => [] :: ((positions e).map (0 :: ·) ++ (positions value).map (1 :: ·))
  | .binary left _ right _ =>
    [] :: ((positions left).map (0 :: ·) ++ (positions right).map (1 :: ·))
  | .call _ args _ => [] :: positionsAll 0 args
  | .entity .. | .parameter _ | .group _ | .constant .. | .column .. | .reference _
  | .lookup _ => [[]]
def positionsArgs : Args Shape → List Position
  | .positional values => positionsAll 0 values
  | .named fields => positionsFields 0 fields
/-- Positions below parts that are numbered from the given place on. -/
def positionsAll : Nat → List Shape → List Position
  | _, [] => []
  | i, s :: rest => (positions s).map (i :: ·) ++ positionsAll (i + 1) rest
def positionsFields : Nat → List (Member × Shape) → List Position
  | _, [] => []
  | i, (_, s) :: rest => (positions s).map (i :: ·) ++ positionsFields (i + 1) rest
end

section parts

theorem map_snd_none (ss : List Shape) :
    (ss.map fun s => ((none : Option Member), s)).map Prod.snd = ss := by
  rw [List.map_map]
  exact List.map_id ss

theorem map_snd_argsParts (args : Args Shape) : args.parts.map Prod.snd = args.values := by
  cases args with
  | positional values => exact map_snd_none values
  | named fields => exact List.map_map

theorem map_snd_parts (s : Shape) : s.parts.map Prod.snd = s.children := by
  cases s with
  | construct type args => exact map_snd_argsParts args
  | memberInit type args assignments =>
    rw [parts, List.map_append, map_snd_argsParts, List.map_map]
    rfl
  | call function args type => exact map_snd_none args
  | _ => rfl

theorem members_eq (s : Shape) : s.members = s.parts.filterMap Prod.fst := by
  have hargs : ∀ args : Args Shape, args.members = args.parts.filterMap Prod.fst := by
    intro args
    cases args <;> simp [Args.members, Args.parts, List.filterMap_map]
  cases s with
  | construct type args => exact hargs args
  | memberInit type args assignments =>
    simp [members, parts, hargs, List.filterMap_map]
  | call => simp [members, parts]
  | _ => rfl

variable {s : Shape} {c : Option Member × Shape} {i : Nat}

theorem getElem?_children (h : s.parts[i]? = some c) : s.children[i]? = some c.2 := by
  rw [← map_snd_parts, List.getElem?_map, h, Option.map_some]

theorem at?_cons (h : s.parts[i]? = some c) (p : Position) : s.at? (i :: p) = c.2.at? p := by
  rw [at?, getElem?_children h, Option.bind_some]

theorem address?_cons (h : s.parts[i]? = some c) (p : Position) :
    s.address? (i :: p) = c.1.bind fun m => (c.2.address? p).map (m :: ·) := by
  rw [address?, h, Option.bind_some]

/-- Where an address leads on, so does a member. -/
theorem exists_of_address?_cons {p : Position} {a : Address} (h : s.address? (i :: p) = some a) :
    ∃ m c b, s.parts[i]? = some (some m, c) ∧ c.address? p = some b ∧ a = m :: b := by
  obtain ⟨⟨m?, c⟩, hc, h⟩ := Option.bind_eq_some_iff.mp h
  obtain ⟨m, rfl, h⟩ := Option.bind_eq_some_iff.mp h
  obtain ⟨b, hb, rfl⟩ := Option.map_eq_some_iff.mp h
  exact ⟨m, c, b, hc, hb, rfl⟩

theorem mem_nodes_of_at? {p : Position} {n : Shape} (h : s.at? p = some n) : n ∈ s.nodes := by
  induction p generalizing s with
  | nil =>
    cases h
    exact self_mem_nodes n
  | cons i p ih =>
    obtain ⟨c, hc, h⟩ := Option.bind_eq_some_iff.mp h
    rw [nodes_eq]
    exact List.mem_cons_of_mem s (List.mem_flatMap.mpr ⟨c, List.mem_of_getElem? hc, ih h⟩)

end parts

section positions

theorem positionsAll_eq (i : Nat) (ss : List Shape) :
    positionsAll i ss = (ss.zipIdx i).flatMap fun c => c.1.positions.map (c.2 :: ·) := by
  induction ss generalizing i with
  | nil => rfl
  | cons s ss ih => rw [positionsAll, ih, List.zipIdx_cons, List.flatMap_cons]

theorem positionsFields_eq (i : Nat) (fs : List (Member × Shape)) :
    positionsFields i fs =
      ((fs.map Prod.snd).zipIdx i).flatMap fun c => c.1.positions.map (c.2 :: ·) := by
  induction fs generalizing i with
  | nil => rfl
  | cons f fs ih =>
    rw [positionsFields, ih, List.map_cons, List.zipIdx_cons, List.flatMap_cons]

theorem positionsArgs_eq (args : Args Shape) :
    positionsArgs args = args.values.zipIdx.flatMap fun c => c.1.positions.map (c.2 :: ·) := by
  cases args with
  | positional values => exact positionsAll_eq 0 values
  | named fields => exact positionsFields_eq 0 fields

theorem positions_eq (s : Shape) :
    s.positions = [] :: s.children.zipIdx.flatMap fun c => c.1.positions.map (c.2 :: ·) := by
  cases s with
  | construct type args => rw [positions, positionsArgs_eq, children]
  | memberInit type args assignments =>
    rw [positions, positionsArgs_eq, positionsFields_eq, children, List.zipIdx_append,
      List.flatMap_append, Nat.zero_add]
  | call function args type => rw [positions, positionsAll_eq, children]
  | attach | binary => simp [positions, children]
  | entity | parameter | group | constant | column | reference | lookup => rfl

theorem nodup_positions (s : Shape) : s.positions.Nodup := by
  induction s using children_induction with
  | node s ih =>
    rw [positions_eq, List.nodup_cons, List.nodup_flatMap]
    refine ⟨by simp, fun c hc => ?_, ?_⟩
    · exact (ih c.1 (List.fst_mem_of_mem_zipIdx hc)).map List.cons_injective
    · have hn : (s.children.zipIdx.map Prod.snd).Nodup := by
        rw [List.zipIdx_map_snd]
        exact List.nodup_range'
      refine (List.pairwise_map.mp hn).imp fun hne p hp hq => ?_
      obtain ⟨q, -, rfl⟩ := List.mem_map.mp hp
      obtain ⟨q', -, h⟩ := List.mem_map.mp hq
      exact hne (List.cons_eq_cons.mp h).1.symm

end positions

section separation

/-- Where two positions part, both ways go on through the same member. -/
def PartAtMember (s : Shape) (p q : Position) : Prop :=
  ∃ above i j p' q' n m, p = above ++ i :: p' ∧ q = above ++ j :: q' ∧ i ≠ j ∧
    s.at? above = some n ∧ n.member? i = some m ∧ n.member? j = some m

variable {s n n' : Shape} {p q : Position} {a b : Address}

theorem PartAtMember.cons {c : Option Member × Shape} {i : Nat} (hc : s.parts[i]? = some c)
    (h : c.2.PartAtMember p q) : s.PartAtMember (i :: p) (i :: q) := by
  obtain ⟨above, j, k, p', q', n, m, rfl, rfl, hne, hn, hj, hk⟩ := h
  exact ⟨i :: above, j, k, p', q', n, m, rfl, rfl, hne, (at?_cons hc above).trans hn, hj, hk⟩

-- Nothing with a member is below a leaf, so neither position can lie on the way to the other.
theorem partAtMember_of_prefix (hn : s.at? p = some n) (hleaf : ∀ i, n.member? i = none)
    (hn' : s.at? q = some n') (hleaf' : ∀ i, n'.member? i = none) (ha : s.address? p = some a)
    (hb : s.address? q = some b) (hne : p ≠ q) (hab : a <+: b) : s.PartAtMember p q := by
  induction p generalizing s q a b with
  | nil =>
    cases hn
    cases q with
    | nil => exact absurd rfl hne
    | cons j q =>
      obtain ⟨m, c, -, hc, -⟩ := exists_of_address?_cons hb
      have hm := hleaf j
      rw [member?, hc] at hm
      cases hm
  | cons i p ih =>
    obtain ⟨m, c, a', hc, ha', rfl⟩ := exists_of_address?_cons ha
    cases q with
    | nil =>
      cases hn'
      have hm := hleaf' i
      rw [member?, hc] at hm
      cases hm
    | cons j q =>
      obtain ⟨m', c', b', hc', hb', rfl⟩ := exists_of_address?_cons hb
      obtain ⟨rfl, hab'⟩ := List.cons_prefix_cons.mp hab
      by_cases hij : i = j
      · subst hij
        obtain ⟨-, rfl⟩ := Prod.mk.inj (Option.some.inj (hc.symm.trans hc'))
        rw [at?_cons hc] at hn hn'
        have hpq : p ≠ q := fun h => hne (congrArg (i :: ·) h)
        exact .cons hc (ih hn hn' ha' hb' hpq hab')
      · exact ⟨[], i, j, p, q, s, m, rfl, rfl, hij, rfl, by rw [member?, hc]; rfl,
          by rw [member?, hc']; rfl⟩

/-- Of two places with one value in a list that is free of doubles, the second is the first. -/
theorem eq_of_getElem?_of_nodup {α β : Type} {g : α → Option β} {l : List α} {x y : α} {v : β}
    {i j : Nat} (hl : (l.filterMap g).Nodup) (hx : l[i]? = some x) (hy : l[j]? = some y)
    (hgx : g x = some v) (hgy : g y = some v) : i = j := by
  obtain ⟨hi, rfl⟩ := List.getElem?_eq_some_iff.mp hx
  obtain ⟨hj, rfl⟩ := List.getElem?_eq_some_iff.mp hy
  have hp := List.pairwise_iff_getElem.mp (List.pairwise_filterMap.mp hl)
  rcases Nat.lt_trichotomy i j with h | h | h
  · exact absurd rfl (hp i j hi hj h v hgx v hgy)
  · exact h
  · exact absurd rfl (hp j i hj hi h v hgy v hgx)

theorem not_partAtMember (h : s.NamesOnce) : ¬ s.PartAtMember p q := by
  rintro ⟨above, i, j, p', q', n, m, -, -, hne, hn, hi, hj⟩
  obtain ⟨c, hc, hcm⟩ := Option.bind_eq_some_iff.mp hi
  obtain ⟨d, hd, hdm⟩ := Option.bind_eq_some_iff.mp hj
  have hm : n.members.Nodup := h n (mem_nodes_of_at? hn)
  rw [members_eq] at hm
  exact hne (eq_of_getElem?_of_nodup hm hc hd hcm hdm)

end separation

end Shape

end QueryShaping
