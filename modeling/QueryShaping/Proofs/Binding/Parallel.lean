import Mathlib.Data.List.Forall2
import QueryShaping.Proofs.Binding.Visits

/-!
What binding leaves of the structure of a shape. Main statement: a bound shape is parallel to the
shape that it was bound from, node by node with the same labels, types and numbers of parts, apart
from the scalars that references and lookups stand for (`bindShape_parallel`).
-/

namespace QueryShaping

/-- The members that come with the arguments, if the arguments are not given by position. -/
def Args.members? {α : Type} : Args α → Option (List Member)
  | .positional _ => none
  | .named fields => some (fields.map Prod.fst)

/-- What a node says itself, its parts and the buffer of an entity aside. -/
inductive Label where
  | construct (type : String) (members : Option (List Member))
  | memberInit (type : String) (members : Option (List Member)) (assigned : List Member)
  | entity (type : String)
  | attach (navigation : String)
  | parameter (parameter : Parameter)
  | group (parameter : Parameter)
  | constant (value : Value) (type : DataType)
  | column (table name : String) (type : DataType)
  | binary (op : Operator) (type : DataType)
  | call (function : String) (type : DataType)
  | reference (reference : Reference)
  | lookup (parameter : Parameter)
deriving DecidableEq, Repr

def Shape.label : Shape → Label
  | .construct type args => .construct type args.members?
  | .memberInit type args assignments =>
    .memberInit type args.members? (assignments.map Prod.fst)
  | .entity type _ => .entity type
  | .attach _ navigation _ => .attach navigation
  | .parameter p => .parameter p
  | .group p => .group p
  | .constant value type => .constant value type
  | .column table name type => .column table name type
  | .binary _ op _ type => .binary op type
  | .call function _ type => .call function type
  | .reference r => .reference r
  | .lookup p => .lookup p

namespace Binding

/-- The second shape is what binding in the given mode may make of the first. -/
inductive Parallel (mode : Mode) : Shape → Shape → Prop
  /-- A node stays, and so do its parts, each with its counterpart. -/
  | kept {n m : Shape} (hl : m.label = n.label) (ht : m.type = n.type)
    (hp : List.Forall₂ (Parallel mode) n.children m.children) : Parallel mode n m
  /-- A reference stands for a scalar and all that is below it. -/
  | bound {n : Shape} {r : Reference} (hs : n.isScalar) (ht : r.type = n.type) :
    Parallel mode n (.reference r)
  /-- A lookup stands for a parameter. -/
  | deferred {p : Parameter} (hm : mode = .client) : Parallel mode (.parameter p) (.lookup p)

theorem Parallel.type_eq {mode : Mode} {n m : Shape} (h : Parallel mode n m) : m.type = n.type := by
  cases h with
  | kept _ ht | bound _ ht => exact ht
  | deferred => rfl

namespace Server

variable {store : Store} (query : QueryId)

theorem map_fst_addressedFields (fs : List (Member × Shape)) (path : Address) :
    (addressedFields query path fs).map Prod.fst = fs.map Prod.fst := by
  induction fs with
  | nil => rfl
  | cons f fs ih => rw [addressedFields, List.map_cons, List.map_cons, ih]

theorem members?_addressedArgs (args : Args Shape) (path : Address) :
    (addressedArgs query path args).members? = args.members? := by
  cases args with
  | positional values => rfl
  | named fields => exact congrArg some (map_fst_addressedFields query fields path)

-- What stands by position or below an attachment is never reached without an obstacle.
mutual
theorem parallel_addressed : ∀ (s : Shape) (path : Address), obstacles store path s = [] →
    Parallel .server s (addressed query path s)
  | .construct type args, path, ho => by
    refine .kept ?_ rfl (parallel_addressedArgs args path ho)
    rw [addressed, Shape.label, members?_addressedArgs, Shape.label]
  | .memberInit type args assignments, path, ho => by
    obtain ⟨hoa, hof⟩ := List.append_eq_nil_iff.mp ho
    have ha := parallel_addressedArgs args path hoa
    have hf := parallel_addressedFields assignments path hof
    refine .kept ?_ rfl (List.rel_append ha hf)
    rw [addressed, Shape.label, members?_addressedArgs, map_fst_addressedFields, Shape.label]
  | .entity .., _, _ | .group _, _, _ | .reference _, _, _ | .lookup _, _, _ => .kept rfl rfl .nil
  | .attach .., _, ho => by cases ho
  | .parameter p, path, _ => by
    by_cases hp : p.type.isEnumerable
    · rw [addressed, if_pos hp]
      exact .kept rfl rfl .nil
    · rw [addressed, if_neg hp]
      exact .bound (by simp [Shape.isScalar, hp]) rfl
  | .constant .., _, _ | .column .., _, _ | .binary .., _, _ | .call .., _, _ => .bound rfl rfl
theorem parallel_addressedArgs : ∀ (args : Args Shape) (path : Address),
    obstaclesArgs store path args = [] →
    List.Forall₂ (Parallel .server) args.values (addressedArgs query path args).values
  | .positional [], _, _ => .nil
  | .positional (_ :: _), _, ho => by cases ho
  | .named fs, path, ho => parallel_addressedFields fs path ho
theorem parallel_addressedFields : ∀ (fs : List (Member × Shape)) (path : Address),
    obstaclesFields store path fs = [] →
    List.Forall₂ (Parallel .server) (fs.map Prod.snd)
      ((addressedFields query path fs).map Prod.snd)
  | [], _, _ => .nil
  | (m, s) :: rest, path, ho => by
    obtain ⟨hos, hor⟩ := List.append_eq_nil_iff.mp ho
    exact .cons (parallel_addressed s (path.child m) hos) (parallel_addressedFields rest path hor)
end

end Server

namespace Client

variable (store : Store) (behind? : Reference → Option Fragment)
  (refer : Fragment → DataType → Reference)

theorem map_fst_residueFields (fs : List (Member × Shape)) :
    (residueFields store behind? refer fs).map Prod.fst = fs.map Prod.fst := by
  induction fs with
  | nil => rfl
  | cons f fs ih => rw [residueFields, List.map_cons, List.map_cons, ih]

theorem members?_residueArgs (args : Args Shape) :
    (residueArgs store behind? refer args).members? = args.members? := by
  cases args with
  | positional values => rfl
  | named fields => exact congrArg some (map_fst_residueFields store behind? refer fields)

variable (final : Select)

theorem parallel_replace {n m : Shape} (hs : n.isScalar) (hm : Parallel .client n m) :
    Parallel .client n (replace store final.refer n m) := by
  unfold replace
  split
  · exact .bound hs rfl
  · exact hm

mutual
theorem parallel_residue : ∀ s : Shape, Parallel .client s (residue store behind? final.refer s)
  | .construct type args => by
    refine .kept ?_ rfl (parallel_residueArgs args)
    rw [residue, Shape.label, members?_residueArgs, Shape.label]
  | .memberInit type args assignments => by
    have ha := parallel_residueArgs args
    have hf := parallel_residueFields assignments
    refine .kept ?_ rfl (List.rel_append ha hf)
    rw [residue, Shape.label, members?_residueArgs, map_fst_residueFields, Shape.label]
  | .entity type buffer => by
    rw [residue]
    split <;> exact .kept rfl rfl .nil
  | .attach e navigation value => by
    have he := parallel_residue e
    exact .kept rfl he.type_eq (.cons he (.cons (parallel_residue value) .nil))
  | .parameter p => by
    by_cases hp : p.type.isEnumerable
    · rw [residue, if_pos hp]
      exact .kept rfl rfl .nil
    · rw [residue, if_neg hp]
      exact parallel_replace store final (by simp [Shape.isScalar, hp]) (.deferred rfl)
  | .constant .. | .column .. => parallel_replace store final rfl (.kept rfl rfl .nil)
  | .binary left op right type => by
    have hb := List.Forall₂.cons (parallel_residue left) (.cons (parallel_residue right) .nil)
    exact parallel_replace store final rfl (.kept rfl rfl hb)
  | .call function args type =>
    parallel_replace store final rfl (.kept rfl rfl (parallel_residueAll args))
  | .group _ | .reference _ | .lookup _ => .kept rfl rfl .nil
theorem parallel_residueArgs : ∀ args : Args Shape,
    List.Forall₂ (Parallel .client) args.values (residueArgs store behind? final.refer args).values
  | .positional values => parallel_residueAll values
  | .named fs => parallel_residueFields fs
theorem parallel_residueAll : ∀ ss : List Shape,
    List.Forall₂ (Parallel .client) ss (residueAll store behind? final.refer ss)
  | [] => .nil
  | s :: rest => .cons (parallel_residue s) (parallel_residueAll rest)
theorem parallel_residueFields : ∀ fs : List (Member × Shape),
    List.Forall₂ (Parallel .client) (fs.map Prod.snd)
      ((residueFields store behind? final.refer fs).map Prod.snd)
  | [] => .nil
  | (_, s) :: rest => .cons (parallel_residue s) (parallel_residueFields rest)
end

end Client

section rebuilding

variable {σ : Type} [Owner σ] {store : Store}

/-- Arguments that stand in the place of others: as many, and for the same members. -/
def Replaces (args' args : Args Shape) : Prop :=
  args'.values.length = args.values.length ∧ args'.members? = args.members?

theorem replaces_named {fs fs' : List (Member × Shape)} (h : fs'.map Prod.fst = fs.map Prod.fst) :
    Replaces (.named fs') (.named fs) := by
  have hl := congrArg List.length h
  rw [List.length_map, List.length_map] at hl
  refine ⟨?_, congrArg some h⟩
  rw [Args.values, Args.values, List.length_map, List.length_map, hl]

theorem Server.map_fst_fields {owner : σ} {fs fs' : List (Member × Shape)} {path : Address}
    (h : (fields owner store path fs).result = .ok fs') : fs'.map Prod.fst = fs.map Prod.fst := by
  induction fs generalizing fs' with
  | nil =>
    cases h
    rfl
  | cons f fs ih =>
    obtain ⟨s, -, h⟩ := Trace.exists_of_bind_ok h
    obtain ⟨rest, hr, h⟩ := Trace.exists_of_bind_ok h
    cases h
    rw [List.map_cons, List.map_cons, ih hr]

theorem Server.replaces_arguments {owner : σ} {args args' : Args Shape} {path : Address}
    (h : (arguments owner store path args).result = .ok args') : Replaces args' args := by
  cases args with
  | positional values =>
    cases values with
    | nil =>
      cases h
      exact ⟨rfl, rfl⟩
    | cons => cases h
  | named fs =>
    obtain ⟨fs', hf, h⟩ := Trace.exists_of_bind_ok h
    cases h
    exact replaces_named (map_fst_fields hf)

theorem Client.length_shapes {ss ss' : List Shape} {o : σ}
    (h : (shapes store ss o).1.result = .ok ss') : ss'.length = ss.length := by
  induction ss generalizing ss' o with
  | nil =>
    cases h
    rfl
  | cons s ss ih =>
    obtain ⟨s', -, h⟩ := Pass.exists_of_bind_ok h
    obtain ⟨rest, hr, h⟩ := Pass.exists_of_bind_ok h
    cases h
    rw [List.length_cons, List.length_cons, ih hr]

theorem Client.map_fst_fields {fs fs' : List (Member × Shape)} {o : σ}
    (h : (fields store fs o).1.result = .ok fs') : fs'.map Prod.fst = fs.map Prod.fst := by
  induction fs generalizing fs' o with
  | nil =>
    cases h
    rfl
  | cons f fs ih =>
    obtain ⟨s, -, h⟩ := Pass.exists_of_bind_ok h
    obtain ⟨rest, hr, h⟩ := Pass.exists_of_bind_ok h
    cases h
    rw [List.map_cons, List.map_cons, ih hr]

theorem Client.replaces_arguments {args args' : Args Shape} {o : σ}
    (h : (arguments store args o).1.result = .ok args') : Replaces args' args := by
  cases args with
  | positional values =>
    obtain ⟨values', hv, h⟩ := Pass.exists_of_bind_ok h
    cases h
    exact ⟨length_shapes hv, rfl⟩
  | named fs =>
    obtain ⟨fs', hf, h⟩ := Pass.exists_of_bind_ok h
    cases h
    exact replaces_named (map_fst_fields hf)

end rebuilding

/-- A bound shape is parallel to the shape that it was bound from, whichever way it was bound, and
neither pass ever puts a construction together with other than as many arguments as it had. -/
theorem bindShape_parallel (config : Config) (store : Store) (s : Shape) (owner : Select)
    {bound : Bound} (h : (bindShape config store s owner).1.result = .ok bound) :
    Parallel bound.mode s bound.shape ∧ bound.shape.type = s.type ∧
    (∀ path args args', (Server.arguments owner store path args).result = .ok args' →
      Replaces args' args) ∧
    ∀ (during : Select) args args', (Client.arguments store args during).1.result = .ok args' →
      Replaces args' args := by
  obtain ⟨b, mode⟩ := bound
  have hp : Parallel mode s b := by
    cases mode with
    | server =>
      obtain ⟨-, ho, rfl, -⟩ := eq_of_bindShape_server h
      exact Server.parallel_addressed owner.id s .root ho
    | client =>
      obtain ⟨-, rfl, -⟩ := eq_of_bindShape_client h
      exact Client.parallel_residue store owner.behind? (projected store owner s) s
  exact ⟨hp, hp.type_eq, fun _ _ _ => Server.replaces_arguments,
    fun _ _ _ => Client.replaces_arguments⟩

theorem bindShape_parallel_customerView :
    (∃ b, (bindShape {} standardStore (customerView upperName) customers).1.result =
        .ok ⟨b, .server⟩ ∧ Parallel .server (customerView upperName) b ∧ b.type = .object "View") ∧
    (∃ b, (bindShape {} standardStore (customerView localName) customers).1.result =
        .ok ⟨b, .client⟩ ∧ Parallel .client (customerView localName) b ∧
        b.type = .object "View") := by
  have hu := bindShape_parallel {} standardStore (customerView upperName) customers rfl
  have hl := bindShape_parallel {} standardStore (customerView localName) customers rfl
  exact ⟨⟨_, rfl, hu.1, hu.2.1⟩, ⟨_, rfl, hl.1, hl.2.1⟩⟩

end Binding

end QueryShaping
