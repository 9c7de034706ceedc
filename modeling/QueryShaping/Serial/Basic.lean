import QueryShaping.Json.Basic

/-!
JSON forms. A case without content is written as its name, a case with content as an object of one
field, and a record as an object of its fields.
-/

namespace QueryShaping

class Serial (α : Type) where
  encode : α → Json
  decode? : Json → Option α

namespace Json

/-- The fields of a record: an object that has all of them, or an array of just them in order. -/
def record? (names : List String) : Json → Option (List Json)
  | object fields => names.mapM fun name => fields.lookup name
  | array items => if items.length = names.length then some items else none
  | _ => none

/-- The name of a case and its content, if it has any. -/
def tagged? : Json → Option (String × Option Json)
  | string tag => some (tag, none)
  | object [(tag, content)] => some (tag, some content)
  | _ => none

/-- The name of a case without content, which may also be an object that holds null. -/
def bareTag? : Json → Option String
  | string tag | object [(tag, null)] => some tag
  | _ => none

end Json

end QueryShaping
