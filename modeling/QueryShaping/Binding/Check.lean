import QueryShaping.Binding.Owner

/-!
The check of a shape before it is bound: whatever only binding makes is refused, and so is an
entity whose value buffer the owner cannot answer.
-/

namespace QueryShaping.Binding

/-- The address that an entity is read from. A slot is what binding leaves, not what it takes. -/
def source (type : String) (buffer : Reference) : Except Error Address :=
  match buffer.target with
  | .address a => .ok a
  | .slot _ => .error (.invalidBuffer (.expectedAddress type))

variable {σ : Type} [Owner σ]

def checkEntity (owner : σ) (type : String) (buffer : Reference) : Except Error Unit :=
  if buffer.query = Owner.id owner then
    match source type buffer with
    | .error e => .error e
    | .ok a =>
      match Owner.fragmentAt owner a with
      | .error e => .error e
      | .ok _ => .ok ()
  else .error (.foreignBuffer (Owner.id owner) buffer.query)

mutual
/-- Goes through the whole shape from left to right and answers the first defect. -/
def check (owner : σ) : Shape → Except Error Unit
  | .entity type buffer => checkEntity owner type buffer
  | .reference _ => .error (.alreadyBound .reference)
  | .lookup _ => .error (.alreadyBound .lookup)
  | .construct _ args => checkArgs owner args
  | .memberInit _ args assignments => do
    checkArgs owner args
    checkFields owner assignments
  | .attach entity _ value => do
    check owner entity
    check owner value
  | .binary left _ right _ => do
    check owner left
    check owner right
  | .call _ args _ => checkAll owner args
  | .parameter _ | .group _ | .constant .. | .column .. => .ok ()
def checkArgs (owner : σ) : Args Shape → Except Error Unit
  | .positional values => checkAll owner values
  | .named fields => checkFields owner fields
def checkAll (owner : σ) : List Shape → Except Error Unit
  | [] => .ok ()
  | s :: rest => do
    check owner s
    checkAll owner rest
def checkFields (owner : σ) : List (Member × Shape) → Except Error Unit
  | [] => .ok ()
  | (_, s) :: rest => do
    check owner s
    checkFields owner rest
end

end QueryShaping.Binding
