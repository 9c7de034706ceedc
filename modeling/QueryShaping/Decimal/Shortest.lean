import QueryShaping.Decimal.Binary

/-!
The shortest decimal that reads back as a given binary number: the coarsest decimal grid with a
point in the rounding interval, and the point of that grid nearest to the number.
-/

namespace QueryShaping.Decimal

/-- The number `digits * 10 ^ exponent`. -/
structure Scaled where
  digits : Nat
  exponent : Int
deriving DecidableEq, Repr

def digitCount (n : Nat) : Nat := (Nat.toDigits 10 n).length

namespace RoundingInterval

variable (i : RoundingInterval)

/-- A number `n` of the interval's quarters is `n * num p / den p` steps of the grid `10 ^ p`. -/
def num (p : Int) : Nat := Nat.pow 2 i.exponent.toNat * Nat.pow 10 (-p).toNat

def den (p : Int) : Nat := Nat.pow 2 (-i.exponent).toNat * Nat.pow 10 p.toNat

def contains (p : Int) (digits : Nat) : Bool :=
  let low := i.low * i.num p
  let high := i.high * i.num p
  let point := digits * i.den p
  if i.closed then low ≤ point && point ≤ high else low < point && point < high

/-- The point of the grid `10 ^ p` that reads back and is nearest to the value. Only the two
neighbours of the value can be nearest; a tie goes to the larger. -/
def onGrid? (p : Int) : Option Nat :=
  let below := i.value * i.num p / i.den p
  let above := below + 1
  match i.contains p below, i.contains p above with
  | true, true =>
    if i.value * i.num p - below * i.den p < above * i.den p - i.value * i.num p
      then some below else some above
  | true, false => some below
  | false, true => some above
  | false, false => none

/-- The least power of ten above the value, as an exponent. -/
def ceiling : Int :=
  let whole := i.value * i.num 0 / i.den 0
  if whole = 0 then 1 - (digitCount ((i.den 0 - 1) / i.value) : Int) else digitCount whole

/-- Searches finer and finer grids. -/
def search : Nat → Int → Scaled
  | 0, p => ⟨i.value * i.num p / i.den p, p⟩
  | fuel + 1, p =>
    match i.onGrid? p with
    | some digits => ⟨digits, p⟩
    | none => search fuel (p - 1)

end RoundingInterval

/-- A number with `n` significant bits is told apart by `n * 30103 / 100000 + 2` decimal digits. -/
def BinaryFormat.decimalDigits (f : BinaryFormat) : Nat :=
  (f.fractionBits + 1) * 30103 / 100000 + 2

/-- The search starts at the power of ten above the value, and ends at the grid on which all
numbers of the format are told apart. -/
def BinaryFormat.shortest (f : BinaryFormat) (significand : Nat) (exponent : Int) : Scaled :=
  let interval := f.interval significand exponent
  interval.search (f.decimalDigits + 1) interval.ceiling

end QueryShaping.Decimal
