import QueryShaping.Proofs.Binding.Agreement
import QueryShaping.Proofs.Binding.Resolution
import QueryShaping.Proofs.Binding.Visits
import QueryShaping.Proofs.Shape.Relabelling

/-!
What a bind depends on. A shape is bound against two selects that have nothing in common but the
fragments that its entities are read from. Main statement: where the store does not look at the
queries of entities inside scalars, the two binds end alike, and what they answer differs only in
the numbers of queries and slots (`bindShape_local`).
-/

namespace QueryShaping

/-- The second query in the place of the first. -/
def Relabelling.replaceQuery (source target : QueryId) : Relabelling where
  query q := if q = source then target else q

/-- One number for all queries and one for all slots. -/
def Relabelling.unnumbered : Relabelling where
  query _ := ⟨0⟩
  target
    | .address a => .address a
    | .slot _ => .slot 0

/-- The shape for a second select in the place of the first. -/
abbrev Shape.moved (s : Shape) (here there : Select) : Shape :=
  s.relabel (.replaceQuery here.id there.id)

/-- The select that the references of a bound shape are read from. -/
def Mode.reader : Mode → Select → Select
  | .server, after => after.flatten
  | .client, after => after

namespace StoreFunctions

variable {functions : StoreFunctions}

mutual
/-- Fragments read rows and not projections. -/
theorem references_of_fragment? : ∀ {s : Shape} {f : Fragment}, functions.fragment? s = some f →
    s.references = []
  | .binary left _ right _, f, h => by
    simp only [fragment?, Option.bind_eq_bind, Option.bind_eq_some_iff] at h
    obtain ⟨l, hl, r, hr, -⟩ := h
    rw [Shape.references, references_of_fragment? hl, references_of_fragment? hr, List.append_nil]
  | .call _ args _, f, h => by
    simp only [fragment?, Option.bind_eq_bind, Option.ite_none_right_eq_some,
      Option.bind_eq_some_iff] at h
    obtain ⟨-, as, ha, -⟩ := h
    exact references_of_fragments? ha
  | .parameter _, _, _ | .constant .., _, _ | .column .., _, _ | .group _, _, _
  | .lookup _, _, _ => rfl
  | .construct .., _, h | .memberInit .., _, h | .entity .., _, h | .attach .., _, h
  | .reference _, _, h => by cases h
theorem references_of_fragments? : ∀ {ss : List Shape} {fs : List Fragment},
    functions.fragments? ss = some fs → Shape.referencesAll ss = []
  | [], _, _ => rfl
  | s :: rest, fs, h => by
    simp only [fragments?, Option.bind_eq_bind, Option.bind_eq_some_iff] at h
    obtain ⟨f, hf, gs, hg, -⟩ := h
    rw [Shape.referencesAll, references_of_fragment? hf, references_of_fragments? hg,
      List.append_nil]
end

/-- A store of functions has no fragment for what reads a projection, whichever query that is of. -/
theorem fragment?_relabel_of_references {s : Shape} (f : Relabelling) (h : s.references ≠ []) :
    functions.fragment? (s.relabel f) = functions.fragment? s := by
  have hn : ∀ {t : Shape}, t.references ≠ [] → functions.fragment? t = none := fun ht =>
    Option.eq_none_iff_forall_ne_some.mpr fun _ hf => ht (references_of_fragment? hf)
  have hf : (s.relabel f).references ≠ [] := by
    rw [Shape.references_relabel]
    exact mt List.map_eq_nil_iff.mp h
  rw [hn h, hn hf]

end StoreFunctions

namespace Binding

/-- The passes are told the same about a node and about its relabelled form. -/
structure SameAnswers (f : Relabelling) (store : Store)
    (behind? behind?' : Reference → Option Fragment) (n : Shape) : Prop where
  scalar : n.isScalar → store (n.relabel f) = store n
  buffer : ∀ r ∈ n.buffer?, behind?' (r.relabel f) = behind? r

variable {f : Relabelling} {store : Store} {behind? behind?' : Reference → Option Fragment}
  {s : Shape}

namespace Server

theorem isScalar_relabel (n : Shape) : (n.relabel f).isScalar = n.isScalar := by
  cases n <;> rfl

theorem byPosition_relabel (args : Args Shape) :
    (Shape.relabelArgs f args).byPosition = args.byPosition := by
  obtain (_ | _) | _ := args <;> rfl

theorem obstacle?_relabel {n : Shape} (h : n.isScalar → store (n.relabel f) = store n) :
    obstacle? store (n.relabel f) = obstacle? store n := by
  by_cases hn : n.isScalar
  · rw [obstacle?_of_isScalar hn, obstacle?_of_isScalar ((isScalar_relabel n).trans hn), h hn,
      Shape.kind_relabel]
  · cases n with
    | construct type args | memberInit type args assignments =>
      simp only [Shape.relabel, obstacle?, byPosition_relabel]
    | parameter p =>
      have hn' : ¬ (Shape.parameter (p.relabel f)).isScalar := hn
      simp [Shape.relabel, obstacle?, hn, hn']
    | constant | column | binary | call => exact absurd rfl hn
    | entity | attach | group | reference | lookup => rfl

theorem fragment?_relabel {n : Shape} (h : SameAnswers f store behind? behind?' n) :
    fragment? store behind?' (n.relabel f) = fragment? store behind? n := by
  by_cases hn : n.isScalar
  · rw [fragment?_of_isScalar hn, fragment?_of_isScalar ((isScalar_relabel n).trans hn),
      h.scalar hn]
  · cases n with
    | entity type buffer => exact h.buffer buffer rfl
    | parameter p =>
      have hn' : ¬ (Shape.parameter (p.relabel f)).isScalar := hn
      simp [Shape.relabel, fragment?, hn, hn']
    | constant | column | binary | call => exact absurd rfl hn
    | construct | memberInit | attach | group | reference | lookup => rfl

/-- A visited node of the relabelled shape. -/
def relabelAt (f : Relabelling) (p : Address × Shape) : Address × Shape := (p.1, p.2.relabel f)

mutual
theorem visited_relabel : ∀ (s : Shape) (path : Address),
    visited path (s.relabel f) = (visited path s).map (relabelAt f)
  | .construct _ args, path => by
    rw [Shape.relabel, visited, visited, visitedArgs_relabel args path, List.map_cons, relabelAt,
      Shape.relabel]
  | .memberInit _ args assignments, path => by
    rw [Shape.relabel, visited, visited, visitedArgs_relabel args path,
      visitedFields_relabel assignments path, List.map_cons, List.map_append, relabelAt,
      Shape.relabel]
  | .entity .., _ | .attach .., _ | .parameter _, _ | .group _, _ | .constant .., _ | .column .., _
  | .binary .., _ | .call .., _ | .reference _, _ | .lookup _, _ => rfl
theorem visitedArgs_relabel : ∀ (args : Args Shape) (path : Address),
    visitedArgs path (Shape.relabelArgs f args) = (visitedArgs path args).map (relabelAt f)
  | .positional _, _ => rfl
  | .named fs, path => visitedFields_relabel fs path
theorem visitedFields_relabel : ∀ (fs : List (Member × Shape)) (path : Address),
    visitedFields path (Shape.relabelFields f fs) = (visitedFields path fs).map (relabelAt f)
  | [], _ => rfl
  | (m, s) :: rest, path => by
    rw [Shape.relabelFields, visitedFields, visitedFields, visited_relabel s (path.child m),
      visitedFields_relabel rest path, List.map_append]
end

theorem obstacles_relabel (path : Address)
    (h : ∀ n ∈ s.nodes, SameAnswers f store behind? behind?' n) :
    obstacles store path (s.relabel f) = obstacles store path s :=
  obstacles_map (visited_relabel s path) fun p hp =>
    obstacle?_relabel (h p.2 (nodes_of_visited s path hp)).scalar

theorem recordings_relabel (path : Address)
    (h : ∀ n ∈ s.nodes, SameAnswers f store behind? behind?' n) :
    recordings store behind?' path (s.relabel f) = recordings store behind? path s :=
  recordings_map (visited_relabel s path) fun p hp =>
    fragment?_relabel (h p.2 (nodes_of_visited s path hp))

mutual
theorem addressed_relabel (hf : ∀ a, f.target (.address a) = .address a) (query : QueryId) :
    ∀ (s : Shape) (path : Address),
      addressed (f.query query) path (s.relabel f) = (addressed query path s).relabel f
  | .construct _ args, path => by
    rw [Shape.relabel, addressed, addressed, Shape.relabel,
      addressedArgs_relabel hf query args path]
  | .memberInit _ args assignments, path => by
    rw [Shape.relabel, addressed, addressed, Shape.relabel,
      addressedArgs_relabel hf query args path,
      addressedFields_relabel hf query assignments path]
  | .entity .., path | .constant .., path | .column .., path | .binary .., path
  | .call .., path => by
    simp only [Shape.relabel, addressed, Reference.relabel, hf]
  | .parameter p, path => by
    by_cases hp : p.type.isEnumerable <;>
      simp [Shape.relabel, Parameter.relabel, addressed, Reference.relabel, hf, hp]
  | .attach .., _ | .group _, _ | .reference _, _ | .lookup _, _ => rfl
theorem addressedArgs_relabel (hf : ∀ a, f.target (.address a) = .address a) (query : QueryId) :
    ∀ (args : Args Shape) (path : Address),
      addressedArgs (f.query query) path (Shape.relabelArgs f args) =
        Shape.relabelArgs f (addressedArgs query path args)
  | .positional _, _ => rfl
  | .named fs, path => congrArg Args.named (addressedFields_relabel hf query fs path)
theorem addressedFields_relabel (hf : ∀ a, f.target (.address a) = .address a) (query : QueryId) :
    ∀ (fs : List (Member × Shape)) (path : Address),
      addressedFields (f.query query) path (Shape.relabelFields f fs) =
        Shape.relabelFields f (addressedFields query path fs)
  | [], _ => rfl
  | (m, s) :: rest, path => by
    rw [Shape.relabelFields, addressedFields, addressedFields, Shape.relabelFields,
      addressed_relabel hf query s (path.child m), addressedFields_relabel hf query rest path]
end

end Server

namespace Client

theorem demand_relabel {n : Shape} (h : store (n.relabel f) = store n) (slots : List Slot) :
    demand store (n.relabel f) slots = demand store n slots := by
  rw [demand, demand, h, Shape.type_relabel]

mutual
theorem demands_relabel : ∀ s : Shape, (∀ n ∈ s.nodes, SameAnswers f store behind? behind?' n) →
    demands store behind?' (s.relabel f) = demands store behind? s
  | .construct _ args, h => demandsArgs_relabel args (List.forall_mem_cons.mp h).2
  | .memberInit _ args assignments, h => by
    obtain ⟨ha, hf⟩ := List.forall_mem_append.mp (List.forall_mem_cons.mp h).2
    rw [Shape.relabel, demands, demands, demandsArgs_relabel args ha,
      demandsFields_relabel assignments hf]
  | .entity type buffer, h => by
    have hb := (h _ (Shape.self_mem_nodes _)).buffer buffer rfl
    rw [Shape.relabel, demands, demands, hb]
  | .attach e _ value, h => by
    obtain ⟨he, hv⟩ := List.forall_mem_append.mp (List.forall_mem_cons.mp h).2
    rw [Shape.relabel, demands, demands, demands_relabel e he, demands_relabel value hv]
  | .parameter p, h => by
    by_cases hp : p.type.isEnumerable
    · simp [Shape.relabel, Parameter.relabel, demands, hp]
    · have hs := (h _ (Shape.self_mem_nodes _)).scalar (by simp [Shape.isScalar, hp])
      have hd := demand_relabel hs []
      simpa [Shape.relabel, Parameter.relabel, demands, hp] using hd
  | .constant .., h | .column .., h =>
    demand_relabel ((h _ (Shape.self_mem_nodes _)).scalar rfl) []
  | .binary left _ right _, h => by
    obtain ⟨hs, hp⟩ := List.forall_mem_cons.mp h
    obtain ⟨hl, hr⟩ := List.forall_mem_append.mp hp
    have hd := demand_relabel (hs.scalar rfl)
    rw [Shape.relabel] at hd ⊢
    rw [demands, demands, demands_relabel left hl, demands_relabel right hr, hd]
  | .call _ args _, h => by
    obtain ⟨hs, ha⟩ := List.forall_mem_cons.mp h
    have hd := demand_relabel (hs.scalar rfl)
    rw [Shape.relabel] at hd ⊢
    rw [demands, demands, demandsAll_relabel args ha, hd]
  | .group _, _ | .reference _, _ | .lookup _, _ => rfl
theorem demandsArgs_relabel : ∀ args : Args Shape,
    (∀ n ∈ Shape.nodesArgs args, SameAnswers f store behind? behind?' n) →
    demandsArgs store behind?' (Shape.relabelArgs f args) = demandsArgs store behind? args
  | .positional values, h => demandsAll_relabel values h
  | .named fs, h => demandsFields_relabel fs h
theorem demandsAll_relabel : ∀ ss : List Shape,
    (∀ n ∈ Shape.nodesAll ss, SameAnswers f store behind? behind?' n) →
    demandsAll store behind?' (Shape.relabelAll f ss) = demandsAll store behind? ss
  | [], _ => rfl
  | s :: rest, h => by
    obtain ⟨hs, hr⟩ := List.forall_mem_append.mp h
    rw [Shape.relabelAll, demandsAll, demandsAll, demands_relabel s hs, demandsAll_relabel rest hr]
theorem demandsFields_relabel : ∀ fs : List (Member × Shape),
    (∀ n ∈ Shape.nodesFields fs, SameAnswers f store behind? behind?' n) →
    demandsFields store behind?' (Shape.relabelFields f fs) = demandsFields store behind? fs
  | [], _ => rfl
  | (_, s) :: rest, h => by
    obtain ⟨hs, hr⟩ := List.forall_mem_append.mp h
    rw [Shape.relabelFields, demandsFields, demandsFields, demands_relabel s hs,
      demandsFields_relabel rest hr]
end

section residue

variable {g : Relabelling} {refer refer' : Fragment → DataType → Reference}

/-- A relabelling that makes up for another one, and for the places where two passes find their
fragments. -/
structure Blurs (g f : Relabelling) (refer refer' : Fragment → DataType → Reference) : Prop where
  relabelled : f.andThen g = g
  referred : ∀ a type, (refer' a type).relabel g = (refer a type).relabel g

theorem Blurs.relabel_relabel (hg : Blurs g f refer refer') (s : Shape) :
    (s.relabel f).relabel g = s.relabel g := by
  rw [Shape.relabel_relabel, hg.relabelled]

theorem replace_relabel (hg : Blurs g f refer refer') {n r r' : Shape}
    (hs : store (n.relabel f) = store n) (h : r'.relabel g = r.relabel g) :
    (replace store refer' (n.relabel f) r').relabel g = (replace store refer n r).relabel g := by
  rw [replace, replace, hs, Shape.type_relabel]
  cases store n with
  | none => exact h
  | some a => exact congrArg Shape.reference (hg.referred a n.type)

mutual
theorem residue_relabel (hg : Blurs g f refer refer') : ∀ s : Shape,
    (∀ n ∈ s.nodes, SameAnswers f store behind? behind?' n) →
    (residue store behind?' refer' (s.relabel f)).relabel g =
      (residue store behind? refer s).relabel g
  | .construct _ args, h => by
    have ha := residueArgs_relabel hg args (List.forall_mem_cons.mp h).2
    rw [Shape.relabel, residue, residue, Shape.relabel, Shape.relabel, ha]
  | .memberInit _ args assignments, h => by
    obtain ⟨ha, hf⟩ := List.forall_mem_append.mp (List.forall_mem_cons.mp h).2
    rw [Shape.relabel, residue, residue, Shape.relabel, Shape.relabel,
      residueArgs_relabel hg args ha, residueFields_relabel hg assignments hf]
  | .entity type buffer, h => by
    have hb := (h _ (Shape.self_mem_nodes _)).buffer buffer rfl
    rw [Shape.relabel, residue, residue, hb]
    cases behind? buffer with
    | none => exact hg.relabel_relabel (.entity type buffer)
    | some a => exact congrArg (Shape.entity type) (hg.referred a .valueBuffer)
  | .attach e _ value, h => by
    obtain ⟨he, hv⟩ := List.forall_mem_append.mp (List.forall_mem_cons.mp h).2
    rw [Shape.relabel, residue, residue, Shape.relabel, Shape.relabel, residue_relabel hg e he,
      residue_relabel hg value hv]
  | .parameter p, h => by
    by_cases hp : p.type.isEnumerable
    · have ha := hg.relabel_relabel (.parameter p)
      simpa [Shape.relabel, Parameter.relabel, residue, hp] using ha
    · have hs := (h _ (Shape.self_mem_nodes _)).scalar (by simp [Shape.isScalar, hp])
      have ha := replace_relabel hg hs (hg.relabel_relabel (.lookup p))
      simpa [Shape.relabel, Parameter.relabel, residue, hp] using ha
  | .constant value type, h =>
    replace_relabel hg ((h _ (Shape.self_mem_nodes _)).scalar rfl)
      (hg.relabel_relabel (.constant value type))
  | .column table name type, h =>
    replace_relabel hg ((h _ (Shape.self_mem_nodes _)).scalar rfl)
      (hg.relabel_relabel (.column table name type))
  | .binary left _ right _, h => by
    obtain ⟨hs, hp⟩ := List.forall_mem_cons.mp h
    obtain ⟨hl, hr⟩ := List.forall_mem_append.mp hp
    refine replace_relabel hg (hs.scalar rfl) ?_
    rw [Shape.relabel, Shape.relabel, residue_relabel hg left hl, residue_relabel hg right hr]
  | .call _ args _, h => by
    obtain ⟨hs, ha⟩ := List.forall_mem_cons.mp h
    refine replace_relabel hg (hs.scalar rfl) ?_
    rw [Shape.relabel, Shape.relabel, residueAll_relabel hg args ha]
  | .group p, _ => hg.relabel_relabel (.group p)
  | .reference r, _ => hg.relabel_relabel (.reference r)
  | .lookup p, _ => hg.relabel_relabel (.lookup p)
theorem residueArgs_relabel (hg : Blurs g f refer refer') : ∀ args : Args Shape,
    (∀ n ∈ Shape.nodesArgs args, SameAnswers f store behind? behind?' n) →
    Shape.relabelArgs g (residueArgs store behind?' refer' (Shape.relabelArgs f args)) =
      Shape.relabelArgs g (residueArgs store behind? refer args)
  | .positional values, h => congrArg Args.positional (residueAll_relabel hg values h)
  | .named fs, h => congrArg Args.named (residueFields_relabel hg fs h)
theorem residueAll_relabel (hg : Blurs g f refer refer') : ∀ ss : List Shape,
    (∀ n ∈ Shape.nodesAll ss, SameAnswers f store behind? behind?' n) →
    Shape.relabelAll g (residueAll store behind?' refer' (Shape.relabelAll f ss)) =
      Shape.relabelAll g (residueAll store behind? refer ss)
  | [], _ => rfl
  | s :: rest, h => by
    obtain ⟨hs, ht⟩ := List.forall_mem_append.mp h
    rw [Shape.relabelAll, residueAll, residueAll, Shape.relabelAll, Shape.relabelAll,
      residue_relabel hg s hs, residueAll_relabel hg rest ht]
theorem residueFields_relabel (hg : Blurs g f refer refer') : ∀ fs : List (Member × Shape),
    (∀ n ∈ Shape.nodesFields fs, SameAnswers f store behind? behind?' n) →
    Shape.relabelFields g (residueFields store behind?' refer' (Shape.relabelFields f fs)) =
      Shape.relabelFields g (residueFields store behind? refer fs)
  | [], _ => rfl
  | (_, s) :: rest, h => by
    obtain ⟨hs, ht⟩ := List.forall_mem_append.mp h
    rw [Shape.relabelFields, residueFields, residueFields, Shape.relabelFields, Shape.relabelFields,
      residue_relabel hg s hs, residueFields_relabel hg rest ht]
end

end residue

end Client

section bind

open Relabelling

variable {here there : Select}

theorem sameAnswers_moved
    (hm : ∀ n ∈ s.nodes, ∀ r ∈ n.buffer?, ∀ a ∈ r.address?,
      there.mapping.get? a = here.mapping.get? a)
    (hs : ∀ n ∈ s.nodes, n.isScalar → n.references ≠ [] → store (n.moved here there) = store n) :
    ∀ n ∈ s.nodes,
      SameAnswers (replaceQuery here.id there.id) store here.behind? there.behind? n := by
  intro n hn
  constructor
  · intro hc
    by_cases hr : n.references = []
    · have hk : n.moved here there = n := Shape.relabel_query_eq_self _ n (by simp [hr])
      exact congrArg store hk
    · exact hs n hn hc hr
  · intro r hr
    change r.address?.bind there.mapping.get? = r.address?.bind here.mapping.get?
    cases ha : r.address? with
    | none => rfl
    | some a => exact hm n hn r hr a ha

theorem defect?_moved {n : Shape} (hq : ∀ r ∈ n.buffer?, r.query = here.id)
    (hm : ∀ r ∈ n.buffer?, ∀ a ∈ r.address?, there.mapping.get? a = here.mapping.get? a) :
    defect? there (n.moved here there) = defect? here n := by
  cases n with
  | entity type buffer =>
    obtain ⟨query, target, bufferType⟩ := buffer
    obtain rfl : query = here.id := hq _ rfl
    cases target with
    | slot i => simp [Shape.relabel, Reference.relabel, replaceQuery, defect?]
    | address a =>
      have hc : there.mapping.contains a = here.mapping.contains a :=
        congrArg Option.isSome (hm _ rfl a rfl)
      simp [Shape.relabel, Reference.relabel, replaceQuery, defect?, hc]
  | _ => rfl

theorem none_notMem_reads_serverBound {owner : Select} (hi : Intact owner s)
    (ho : Server.obstacles store .root s = []) :
    none ∉ (serverBound owner s).references.map
      (owner.install (serverMapping store owner s)).flatten.read? := by
  rw [map_read?_serverBound hi ho]
  intro h
  obtain ⟨e, he, hn⟩ := List.mem_map.mp h
  obtain ⟨a, ha⟩ := exists_get?_serverMapping he
  rw [← OrderedMap.get?_ofList, ← serverMapping, ha] at hn
  cases hn

theorem firstDefect_moved (hq : ∀ n ∈ s.nodes, ∀ r ∈ n.buffer?, r.query = here.id)
    (hm : ∀ n ∈ s.nodes, ∀ r ∈ n.buffer?, ∀ a ∈ r.address?,
      there.mapping.get? a = here.mapping.get? a) :
    (s.moved here there).nodes.findSome? (defect? there) = s.nodes.findSome? (defect? here) := by
  rw [Shape.nodes_relabel, List.findSome?_map]
  exact findSome?_congr fun n hn => defect?_moved (hq n hn) (hm n hn)

variable (here there s) in
theorem serverBound_moved :
    serverBound there (s.moved here there) =
      (serverBound here s).relabel (replaceQuery here.id there.id) := by
  have hid : (replaceQuery here.id there.id).query here.id = there.id := if_pos rfl
  rw [serverBound, serverBound, ← Server.addressed_relabel (fun _ => rfl), hid]

section sameAnswers

variable (h : ∀ n ∈ s.nodes,
  SameAnswers (replaceQuery here.id there.id) store here.behind? there.behind? n)

include h

theorem serverMapping_moved :
    serverMapping store there (s.moved here there) = serverMapping store here s :=
  congrArg OrderedMap.ofList (Server.recordings_relabel .root h)

theorem clientBound_moved :
    (clientBound store there (s.moved here there)).relabel unnumbered =
      (clientBound store here s).relabel unnumbered := by
  have hb : Client.Blurs unnumbered (replaceQuery here.id there.id) (projected store here s).refer
      (projected store there (s.moved here there)).refer := ⟨rfl, fun _ _ => rfl⟩
  exact Client.residue_relabel hb s h

theorem reads_serverBound_moved (hi : Intact here s) (hi' : Intact there (s.moved here there))
    (ho : Server.obstacles store .root s = []) :
    (serverBound there (s.moved here there)).references.map
        (there.install (serverMapping store there (s.moved here there))).flatten.read? =
      (serverBound here s).references.map
        (here.install (serverMapping store here s)).flatten.read? := by
  rw [map_read?_serverBound hi' ((Server.obstacles_relabel .root h).trans ho),
    map_read?_serverBound hi ho, Server.recordings_relabel .root h]

theorem reads_clientBound_moved (hi : Intact here s) (hi' : Intact there (s.moved here there)) :
    (clientBound store there (s.moved here there)).references.map
        ((projected store there (s.moved here there)).install ∅).read? =
      (clientBound store here s).references.map ((projected store here s).install ∅).read? := by
  rw [map_read?_references hi', map_read?_references hi, Client.demands_relabel s h]

end sameAnswers

/-- Two selects of which a shape reads the same fragments are not told apart by a bind: it ends alike
on both, and the references of the bound shapes read the same. The store sees scalars as they stand,
with the queries of entities inside them; on scalars that differ in nothing else it has to answer
alike, as stores of functions do (`StoreFunctions.fragment?_relabel_of_references`). -/
theorem bindShape_local (config : Config) (store : Store) (s : Shape) (here there : Select)
    (hq : ∀ n ∈ s.nodes, ∀ r ∈ n.buffer?, r.query = here.id)
    (hm : ∀ n ∈ s.nodes, ∀ r ∈ n.buffer?, ∀ a ∈ r.address?,
      there.mapping.get? a = here.mapping.get? a)
    (hs : ∀ n ∈ s.nodes, n.isScalar → n.references ≠ [] → store (n.moved here there) = store n) :
    let first := bindShape config store s here
    let second := bindShape config store (s.moved here there) there
    (∀ e, first.1.result = .error e ↔ second.1.result = .error e) ∧
    ∀ b, first.1.result = .ok b → ∃ c, second.1.result = .ok c ∧ c.mode = b.mode ∧
      second.2.mapping = first.2.mapping ∧
      c.shape.relabel unnumbered = b.shape.relabel unnumbered ∧
      c.shape.references.map (c.mode.reader second.2).read? =
        b.shape.references.map (b.mode.reader first.2).read? ∧
      none ∉ b.shape.references.map (b.mode.reader first.2).read? := by
  have h := sameAnswers_moved hm hs
  have hd' := firstDefect_moved hq hm
  simp only [result_bindShape, select_bindShape, outcome, hd', Server.obstacles_relabel .root h]
  cases hd : s.nodes.findSome? (defect? here) with
  | some e =>
    refine ⟨fun _ => Iff.rfl, ?_⟩
    rintro b ⟨⟩
  | none =>
    have hi : Intact here s := List.findSome?_eq_none_iff.mp hd
    have hi' : Intact there (s.moved here there) :=
      List.findSome?_eq_none_iff.mp (hd'.trans hd)
    cases ho : (Server.obstacles store .root s).head? with
    | none =>
      have ho := List.head?_eq_none_iff.mp ho
      refine ⟨by simp, ?_⟩
      rintro b ⟨⟩
      refine ⟨_, rfl, rfl, serverMapping_moved h, ?_, reads_serverBound_moved h hi hi' ho,
        none_notMem_reads_serverBound hi ho⟩
      rw [serverBound_moved, Shape.relabel_relabel]
      rfl
    | some o =>
      by_cases hp : config.policy = .forbid
      · simp only [hp, if_true]
        exact ⟨fun _ => trivial, by simp⟩
      · simp only [hp, if_false]
        refine ⟨by simp, ?_⟩
        rintro b ⟨⟩
        refine ⟨_, rfl, rfl, rfl, clientBound_moved h, reads_clientBound_moved h hi hi', ?_⟩
        simp [Mode.reader, map_read?_references hi]

/-- Customers of another query, which has their names in its first slot and maps more of them. -/
def namedCustomers : Select :=
  let customers := Select.ofEntity ⟨2⟩ ⟨"Customer", "c", [("Id", .int64), ("Name", .string)]⟩
  ((customers.mapAddress [⟨"Customer", "Name"⟩] (.column "c" "Name" .string)).project
    (.column "c" "Name" .string) .string).2

/-- A label that is made from the whole customer. -/
def customerLabel : Shape :=
  .call "Localize" [.entity "Customer" (customers.buffer .root)] .string

theorem bindShape_local_namedCustomers :
    let s := customerView customerLabel
    let first := bindShape {} standardStore s customers
    let second := bindShape {} standardStore (s.moved customers namedCustomers) namedCustomers
    ∃ b c, first.1.result = .ok ⟨b, .client⟩ ∧ second.1.result = .ok ⟨c, .client⟩ ∧
      c.references.map Reference.slot? ≠ b.references.map Reference.slot? ∧
      c.references.map second.2.read? = b.references.map first.2.read? := by
  have hs : ∀ n ∈ (customerView customerLabel).nodes, n.isScalar → n.references ≠ [] →
      standardStore (n.moved customers namedCustomers) = standardStore n :=
    fun n _ _ hr => StoreFunctions.fragment?_relabel_of_references _ hr
  have hl := bindShape_local {} standardStore (customerView customerLabel) customers namedCustomers
    (by decide) (by decide) hs
  obtain ⟨c, hc, -, -, -, hr, -⟩ := hl.2 _ rfl
  cases hc
  exact ⟨_, _, rfl, rfl, by decide, hr⟩

/-- A store that knows a call by the query of the customer in it. -/
def peeking : Store := fun n =>
  if n.references = [customers.buffer .root] then some (.column "c" "Name" .string) else none

/-- Where the store does not agree, two binds that read the same fragments end apart: it has a
column for the label of the first query, and the client makes the label of the second. -/
theorem not_bound_alike_peeking :
    (∀ n ∈ customerLabel.nodes, ∀ r ∈ n.buffer?, r.query = customers.id) ∧
    (∀ n ∈ customerLabel.nodes, ∀ r ∈ n.buffer?, ∀ a ∈ r.address?,
      namedCustomers.mapping.get? a = customers.mapping.get? a) ∧
    (let s := customerLabel
      let first := bindShape {} peeking s customers
      let second := bindShape {} peeking (s.moved customers namedCustomers) namedCustomers
      ∃ b c, first.1.result = .ok ⟨b, .server⟩ ∧ second.1.result = .ok ⟨c, .client⟩) :=
  ⟨by decide, by decide, _, _, rfl, rfl⟩

end bind

end Binding

end QueryShaping
