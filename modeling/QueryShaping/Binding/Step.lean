import QueryShaping.Binding.Config
import QueryShaping.Error
import QueryShaping.Event
import QueryShaping.Fragment
import QueryShaping.Shape.Equality

/-!
The steps of a bind, and what the log shows of them.
-/

namespace QueryShaping

inductive Step where
  | started (query : QueryId) (root : Kind)
  /-- The store was asked about a node. -/
  | asked (node : Shape)
  /-- A fragment was recorded at an address. -/
  | recorded (address : Address) (fragment : Fragment)
  /-- The server pass met a node that the store cannot evaluate. -/
  | outsideStore (kind : Kind) (address : Address)
  | boundOnServer (query : QueryId) (members : Nat)
  | fellBack (kind : Kind) (address : Address)
  /-- A fragment was given a slot. -/
  | projected (kind : Kind) (fragment : Fragment) (slot : Nat)
  /-- The fragment behind a value buffer was given a slot. -/
  | buffered (entity : String) (slot : Nat)
  /-- A parameter was left to be looked up later. -/
  | deferred (parameter : Parameter)
  | boundOnClient (query : QueryId)
deriving DecidableEq, Repr

namespace Step

def question? : Step → Option Shape
  | asked node => some node
  | _ => none

def recorded? : Step → Option (Address × Fragment)
  | recorded address fragment => some (address, fragment)
  | _ => none

/-- Fragments and parameter names show only where sensitive data may be logged. -/
def events (config : Config) : Step → List Event
  | started query root =>
    [⟨.debug, "binding shaper", [("query", .query query), ("root", .text root.name)]⟩]
  | asked _ => []
  | recorded address fragment =>
    [⟨.trace, "bound projection member",
      [("member", .text address.text), ("depth", .count address.depth)] ++
        if config.sensitive then [("fragment", .text fragment.text)] else []⟩]
  | outsideStore kind address =>
    [⟨.debug, "expression cannot be evaluated on the server",
      [("node", .text kind.name), ("member", .text address.text)]⟩]
  | boundOnServer query members =>
    [⟨.debug, "shaper bound on the server", [("query", .query query), ("members", .count members)]⟩]
  | fellBack kind address =>
    let fields := [("node", .text kind.name), ("member", .text address.text)]
    if config.policy = .warn then
      [⟨.warn, "shaper cannot be evaluated by the store and will be evaluated on the client", fields⟩]
    else [⟨.debug, "falling back to client evaluation", fields⟩]
  | projected kind fragment slot =>
    (if config.sensitive then
      [⟨.trace, "projecting fragment", [("fragment", .text fragment.text)]⟩] else []) ++
    [⟨.trace, "bound projection slot", [("node", .text kind.name), ("slot", .count slot)]⟩]
  | buffered entity slot =>
    [⟨.trace, "projected value buffer", [("entity", .text entity), ("slot", .count slot)]⟩]
  | deferred parameter =>
    if config.sensitive then
      [⟨.trace, "parameter resolved at materialization", [("parameter", .text parameter.name)]⟩]
    else []
  | boundOnClient query =>
    [⟨.debug, "shaper bound for client evaluation", [("query", .query query)]⟩]

end Step

end QueryShaping
