import QueryShaping.Select

/-!
Owners of projections, as binding sees them.
-/

namespace QueryShaping

/-- What binding needs of an owner. Looking up a fragment changes nothing. -/
class Owner (σ : Type) where
  id : σ → QueryId
  fragmentAt : σ → Address → Except Error Fragment
  /-- Answers the slot of a fragment, which is added if it has none. -/
  project : σ → Fragment → DataType → Nat × σ
  /-- Answers the slot of what a value buffer points at. -/
  projectBuffer : σ → Reference → Except Error Nat × σ
  /-- Replaces the whole mapping. -/
  install : σ → Mapping → σ

instance : Owner Select where
  id := Select.id
  fragmentAt := Select.fragmentAt
  project := Select.project
  projectBuffer := Select.projectBuffer
  install := Select.install

/-- A change that an owner was asked to make. -/
inductive Change where
  | project (fragment : Fragment) (type : DataType)
  | projectBuffer (buffer : Reference)
  | install (mapping : Mapping)
deriving DecidableEq, Repr

/-- An owner that remembers what it was asked to change. -/
structure Recorded (σ : Type) where
  owner : σ
  changes : List Change := []
deriving DecidableEq, Repr

variable {σ : Type} [Owner σ]

instance : Owner (Recorded σ) where
  id r := Owner.id r.owner
  fragmentAt r a := Owner.fragmentAt r.owner a
  project r f type :=
    let (slot, owner) := Owner.project r.owner f type
    (slot, ⟨owner, r.changes ++ [.project f type]⟩)
  projectBuffer r buffer :=
    let (slot, owner) := Owner.projectBuffer r.owner buffer
    (slot, ⟨owner, r.changes ++ [.projectBuffer buffer]⟩)
  install r mapping := ⟨Owner.install r.owner mapping, r.changes ++ [.install mapping]⟩

/-- An owner that refuses every value buffer for the given reason. -/
structure Unbuffered (σ : Type) where
  owner : σ
  reason : String
deriving DecidableEq, Repr

instance : Owner (Unbuffered σ) where
  id u := Owner.id u.owner
  fragmentAt u a := Owner.fragmentAt u.owner a
  project u f type :=
    let (slot, owner) := Owner.project u.owner f type
    (slot, { u with owner := owner })
  projectBuffer u _ := (.error (.invalidBuffer (.refused u.reason)), u)
  install u mapping := { u with owner := Owner.install u.owner mapping }

end QueryShaping
