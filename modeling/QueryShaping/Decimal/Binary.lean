/-!
Binary floating-point formats and the numbers that their bit patterns stand for.
-/

namespace QueryShaping.Decimal

/-- A binary interchange format, by the widths of its exponent and fraction fields. -/
structure BinaryFormat where
  exponentBits : Nat
  fractionBits : Nat
deriving DecidableEq, Repr

def binary32 : BinaryFormat := ⟨8, 23⟩

def binary64 : BinaryFormat := ⟨11, 52⟩

/-- What a bit pattern stands for. A finite number is `significand * 2 ^ exponent` with its sign
apart, so that both zeros are kept. -/
inductive Decoded where
  | notANumber
  | infinite (negative : Bool)
  | finite (negative : Bool) (significand : Nat) (exponent : Int)
deriving DecidableEq, Repr

namespace BinaryFormat

variable (f : BinaryFormat)

def bias : Nat := Nat.pow 2 (f.exponentBits - 1) - 1

/-- The leading bit of a normal significand, which a bit pattern leaves out. -/
def hidden : Nat := Nat.pow 2 f.fractionBits

/-- Exponent of the last place of the subnormal numbers, and of the smallest normal ones. -/
def leastExponent : Int := 1 - (f.bias : Int) - f.fractionBits

def decode (bits : Nat) : Decoded :=
  let fraction := bits % f.hidden
  let exponent := bits / f.hidden % Nat.pow 2 f.exponentBits
  let negative := bits / f.hidden / Nat.pow 2 f.exponentBits % 2 == 1
  if exponent = Nat.pow 2 f.exponentBits - 1 then
    if fraction = 0 then .infinite negative else .notANumber
  else if exponent = 0 then
    .finite negative fraction f.leastExponent
  else
    .finite negative (f.hidden + fraction) (f.leastExponent + (exponent - 1))

end BinaryFormat

/-- The reals that round to `significand * 2 ^ exponent`, in quarters of its last place. The ends
belong to the interval when the significand is even. -/
structure RoundingInterval where
  low : Nat
  value : Nat
  high : Nat
  exponent : Int
  closed : Bool
deriving DecidableEq, Repr

/-- Below a power of two the next number is half as far away as above it, except where the
subnormal numbers begin. -/
def BinaryFormat.interval (f : BinaryFormat) (significand : Nat) (exponent : Int) :
    RoundingInterval where
  low := if significand = f.hidden ∧ f.leastExponent < exponent
    then 4 * significand - 1 else 4 * significand - 2
  value := 4 * significand
  high := 4 * significand + 2
  exponent := exponent - 2
  closed := significand % 2 == 0

end QueryShaping.Decimal
