import QueryShaping.Binding.Config
import QueryShaping.Serial.Basic

/-!
JSON forms of the settings of binding.
-/

namespace QueryShaping

namespace Policy

def all : List Policy := [allow, warn, forbid]

def tag : Policy → String
  | allow => "Allow"
  | warn => "Warn"
  | forbid => "Forbid"

def ofTag? (tag : String) : Option Policy := all.find? (·.tag = tag)

def encode (p : Policy) : Json := .string p.tag

def decode? (j : Json) : Option Policy := do
  let tag ← j.bareTag?
  ofTag? tag

instance : Serial Policy := ⟨encode, decode?⟩

end Policy

namespace Config

def encode (c : Config) : Json :=
  .object [("client_eval", c.policy.encode), ("sensitive_data_logging", .bool c.sensitive)]

def decode? (j : Json) : Option Config :=
  match j.record? ["client_eval", "sensitive_data_logging"] with
  | some [policy, sensitive] => do
    let policy ← Policy.decode? policy
    let sensitive ← sensitive.bool?
    return ⟨policy, sensitive⟩
  | _ => none

instance : Serial Config := ⟨encode, decode?⟩

end Config

end QueryShaping
