import QueryShaping.Error
import QueryShaping.Event
import QueryShaping.Fragment
import QueryShaping.OrderedMap

/-!
Selects: queries that own a projection. A projection is a mapping from addresses to fragments,
which flattening turns into a list of slots.
-/

namespace QueryShaping

abbrev Mapping := OrderedMap Address Fragment

/-- One column of the result, with the type that its reader expects. -/
structure Slot where
  fragment : Fragment
  type : DataType
deriving DecidableEq, Hashable, Repr

/-- A query with its projection. Slots are added and never moved, so that a slot number stays
good. -/
structure Select where
  id : QueryId
  mapping : Mapping
  projection : List Slot
  /-- The slot of each address, since the last flattening. -/
  slots : OrderedMap Address Nat
deriving DecidableEq, Repr

namespace Select

def empty (id : QueryId) : Select := ⟨id, ∅, [], ∅⟩

/-- The slots of the last flattening stay as they are. -/
def mapAddress (s : Select) (a : Address) (f : Fragment) : Select :=
  { s with mapping := s.mapping.insert a f }

/-- A select whose rows are entities. -/
def ofEntity (id : QueryId) (columns : EntityColumns) : Select :=
  (empty id).mapAddress .root (.entity columns)

def fragmentAt (s : Select) (a : Address) : Except Error Fragment :=
  match s.mapping.get? a with
  | some f => .ok f
  | none => .error (.unmapped a)

/-- The reference from which an entity at an address is materialised. -/
def buffer (s : Select) (a : Address) : Reference := ⟨s.id, .address a, .valueBuffer⟩

/-- A fragment that has a slot keeps it, and the type it was added with. -/
def project (s : Select) (f : Fragment) (type : DataType) : Nat × Select :=
  match s.projection.findIdx? (·.fragment = f) with
  | some slot => (slot, s)
  | none => (s.projection.length, { s with projection := s.projection ++ [⟨f, type⟩] })

/-- A buffer that names a slot is answered by that slot. -/
def projectBuffer (s : Select) (buffer : Reference) : Except Error Nat × Select :=
  match buffer.target with
  | .address a =>
    match s.fragmentAt a with
    | .ok f =>
      let (slot, s) := s.project f .valueBuffer
      (.ok slot, s)
    | .error e => (.error e, s)
  | .slot i =>
    if i < s.projection.length then (.ok i, s)
    else (.error (.invalidBuffer (.outOfRange i s.projection.length)), s)

/-- A new mapping has no slots until it is flattened. -/
def install (s : Select) (mapping : Mapping) : Select :=
  { s with mapping := mapping, slots := ∅ }

/-- Gives a mapped fragment a slot and keeps it for the address. -/
def place (s : Select) (a : Address) (f : Fragment) : Select :=
  let (slot, s) := s.project f f.type
  { s with slots := s.slots.insert a slot }

/-- Gives every mapped fragment a slot, in the order of the mapping. -/
def flatten (s : Select) : Select :=
  s.mapping.entries.foldl (fun s e => s.place e.1 e.2) { s with slots := ∅ }

/-- The log of a flattening, seen from its result. -/
def flattened (s : Select) : List Event :=
  [⟨.debug, "applied projection mapping",
    [("query", .query s.id), ("members", .count s.slots.size),
      ("slots", .count s.projection.length)]⟩]

/-- The slot that a reference reads. An address has one only after flattening, and a reference to
another query has none. -/
def slot? (s : Select) (r : Reference) : Option Nat :=
  if r.query = s.id then
    match r.target with
    | .slot i => if i < s.projection.length then some i else none
    | .address a => s.slots.get? a
  else none

end Select

end QueryShaping
