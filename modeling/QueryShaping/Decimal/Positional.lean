import QueryShaping.Decimal.Shortest

/-!
Positional text of decimals: no exponent, no trailing zeros after the point, no point in a whole
number.
-/

namespace QueryShaping.Decimal

def Scaled.positional (s : Scaled) : List Char :=
  let digits := Nat.toDigits 10 s.digits
  if 0 ≤ s.exponent then digits ++ List.replicate s.exponent.toNat '0'
  else
    let places := (-s.exponent).toNat
    let padded := List.replicate (places + 1 - digits.length) '0' ++ digits
    padded.take (padded.length - places) ++ '.' :: padded.drop (padded.length - places)

/-- A zero keeps its sign. -/
def BinaryFormat.text (f : BinaryFormat) (bits : Nat) : String :=
  match f.decode bits with
  | .notANumber => "NaN"
  | .infinite negative => if negative then "-inf" else "inf"
  | .finite negative significand exponent =>
    let magnitude := if significand = 0 then ['0'] else (f.shortest significand exponent).positional
    String.ofList (if negative then '-' :: magnitude else magnitude)

end QueryShaping.Decimal
