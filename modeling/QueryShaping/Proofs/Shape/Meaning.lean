import QueryShaping.Shape.Basic

/-!
Meanings of shapes. A meaning has a function for each kind of node and is otherwise arbitrary; what
a reference stands for is given apart, and may be nothing.
-/

namespace QueryShaping

structure Meaning (V : Type) where
  column : String → String → DataType → V
  constant : Value → DataType → V
  parameter : Parameter → V
  group : Parameter → V
  binary : V → Operator → V → DataType → V
  call : String → List V → DataType → V
  construct : String → Args V → V
  memberInit : String → Args V → List (Member × V) → V
  attach : V → String → V → V
  /-- What is materialised from the value of a buffer. -/
  entity : String → V → V

namespace Shape

variable {V : Type} (M : Meaning V) (read : Reference → Option V)

mutual
/-- The value of a shape. A lookup means what its parameter means. -/
def eval : Shape → Option V
  | .construct type args => (evalArgs args).map (M.construct type)
  | .memberInit type args assignments => do
    let args ← evalArgs args
    let assignments ← evalFields assignments
    return M.memberInit type args assignments
  | .entity type buffer => (read buffer).map (M.entity type)
  | .attach e navigation value => do
    let e ← eval e
    let value ← eval value
    return M.attach e navigation value
  | .parameter p | .lookup p => some (M.parameter p)
  | .group p => some (M.group p)
  | .constant value type => some (M.constant value type)
  | .column table name type => some (M.column table name type)
  | .binary left op right type => do
    let left ← eval left
    let right ← eval right
    return M.binary left op right type
  | .call function args type => (evalAll args).map (M.call function · type)
  | .reference r => read r
def evalArgs : Args Shape → Option (Args V)
  | .positional values => (evalAll values).map .positional
  | .named fields => (evalFields fields).map .named
def evalAll : List Shape → Option (List V)
  | [] => some []
  | s :: rest => do
    let v ← eval s
    let vs ← evalAll rest
    return v :: vs
def evalFields : List (Member × Shape) → Option (List (Member × V))
  | [] => some []
  | (m, s) :: rest => do
    let v ← eval s
    let vs ← evalFields rest
    return (m, v) :: vs
end

end Shape

end QueryShaping
