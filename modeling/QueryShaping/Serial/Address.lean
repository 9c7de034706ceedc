import QueryShaping.Reference
import QueryShaping.Serial.Basic

/-!
JSON forms of members, addresses and query ids.
-/

namespace QueryShaping

namespace Member

def encode (m : Member) : Json :=
  .object [("declaring_type", .string m.declaringType), ("name", .string m.name)]

def decode? (j : Json) : Option Member :=
  match j.record? ["declaring_type", "name"] with
  | some [declaringType, name] => do
    let declaringType ← declaringType.string?
    let name ← name.string?
    return ⟨declaringType, name⟩
  | _ => none

instance : Serial Member := ⟨encode, decode?⟩

end Member

namespace Address

def encode (a : Address) : Json := .object [("members", .array (a.map Member.encode))]

def decode? (j : Json) : Option Address :=
  match j.record? ["members"] with
  | some [members] => do
    let members ← members.array?
    members.mapM Member.decode?
  | _ => none

instance : Serial Address := ⟨encode, decode?⟩

end Address

namespace QueryId

/-- Ids are written with hyphens. -/
def encode (id : QueryId) : Json := .string id.hyphenated

def decode? (j : Json) : Option QueryId := do
  let text ← j.string?
  ofText? text

instance : Serial QueryId := ⟨encode, decode?⟩

end QueryId

end QueryShaping
