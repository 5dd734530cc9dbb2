import ShaderGraph.Numeric.Rounding

/-!
# Decimal numbers

A decimal is a sign, a coefficient and a power of ten. It has a positional text, and it rounds to
the formats of `BinaryFormat`. Powers of ten beyond the range of a format are cut off before they
are computed.
-/

namespace ShaderGraph

/-- The number `coefficient * 10 ^ exponent`, negated if `negative`. -/
structure Decimal where
  negative : Bool
  coefficient : Nat
  exponent : Int
deriving DecidableEq, Repr

namespace Decimal

def digits (d : Decimal) : List Char :=
  Nat.toDigits 10 d.coefficient

def sign (d : Decimal) : String :=
  if d.negative then "-" else ""

/-- Text without an exponent part; it has a point only if the exponent is negative. -/
def positional (d : Decimal) : String :=
  let ds := d.digits
  if 0 ≤ d.exponent then
    d.sign ++ String.ofList (ds ++ List.replicate d.exponent.toNat '0')
  else
    let k := (-d.exponent).toNat
    if k < ds.length then
      d.sign ++ String.ofList (ds.take (ds.length - k)) ++ "." ++
        String.ofList (ds.drop (ds.length - k))
    else
      d.sign ++ "0." ++ String.ofList (List.replicate (k - ds.length) '0' ++ ds)

/-- Text without an exponent part that has a point in any case. -/
def pointed (d : Decimal) : String :=
  if 0 ≤ d.exponent then d.positional ++ ".0" else d.positional

/-- The power of ten of the leading digit. -/
def leadingPower (d : Decimal) : Int :=
  d.exponent + d.digits.length - 1

/-- Bit pattern, without a sign, of the number of the format nearest to the absolute value. -/
def round (f : BinaryFormat) (d : Decimal) : Nat :=
  if d.coefficient = 0 then 0
  else if f.overflowPower ≤ d.leadingPower then f.infinity
  else if d.leadingPower < f.underflowPower then 0
  else f.round (d.coefficient * naturalPower 10 d.exponent) (naturalPower 10 (-d.exponent))

end Decimal

end ShaderGraph
