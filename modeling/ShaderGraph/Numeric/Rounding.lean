/-!
# Rounding fractions to binary formats

A fraction is rounded to the nearest number of a binary floating-point format, and a tie goes to
the even mantissa. A format is described by its precision, the exponent of its smallest positive
number and the bit pattern of its infinity. Bit patterns of non-negative numbers grow with the
numbers, so rounding computes the pattern directly: the carry of a mantissa that rounds up to the
next power of two moves into the exponent field by itself.
-/

namespace ShaderGraph

/-- The quotient rounded to the nearest natural number; a half goes to the even neighbour. -/
def nearestEven (num den : Nat) : Nat :=
  let q := num / den
  let r := num % den
  if 2 * r < den then q else if den < 2 * r then q + 1 else q + q % 2

/-- The power with a natural exponent, and one for a negative exponent. A fraction is multiplied by
`base ^ k`, for any integer `k`, by `naturalPower base k` in the numerator and
`naturalPower base (-k)` in the denominator. -/
def naturalPower (base : Nat) (k : Int) : Nat :=
  Nat.pow base k.toNat

/-- The greatest `k` with `2 ^ k` at most the fraction, for positive `num` and `den`. -/
def floorLog2 (num den : Nat) : Int :=
  let k : Int := (num.log2 : Int) - den.log2
  if den * naturalPower 2 k ≤ num * naturalPower 2 (-k) then k else k - 1

structure BinaryFormat where
  /-- Mantissa bits, the leading one included. -/
  precision : Nat
  /-- Exponent of the smallest positive number. -/
  minExponent : Int
  /-- Bit pattern of positive infinity. -/
  infinity : Nat
  /-- Fractions of at least ten to this power are infinite. -/
  overflowPower : Int
  /-- Fractions below ten to this power are zero. -/
  underflowPower : Int

namespace BinaryFormat

/-- The mantissa of the smallest normal number, in units of the smallest positive number. -/
def leadingBit (f : BinaryFormat) : Nat :=
  Nat.pow 2 (f.precision - 1)

def binary32 : BinaryFormat where
  precision := 24
  minExponent := -149
  infinity := 0x7f800000
  overflowPower := 39
  underflowPower := -46

def binary64 : BinaryFormat where
  precision := 53
  minExponent := -1074
  infinity := 0x7ff0000000000000
  overflowPower := 309
  underflowPower := -324

/-- Bit pattern of the number nearest to `num / den`. -/
def round (f : BinaryFormat) (num den : Nat) : Nat :=
  if num = 0 then 0
  else
    let e := max (floorLog2 num den - (f.precision - 1)) f.minExponent
    let m := nearestEven (num * naturalPower 2 (-e)) (den * naturalPower 2 e)
    min f.infinity (m + (e - f.minExponent).toNat * f.leadingBit)

/-- Mantissa of a finite bit pattern: the number is `mantissa * 2 ^ exponent`. -/
def mantissa (f : BinaryFormat) (bits : Nat) : Nat :=
  if bits / f.leadingBit = 0 then bits % f.leadingBit
  else f.leadingBit + bits % f.leadingBit

def exponent (f : BinaryFormat) (bits : Nat) : Int :=
  if bits / f.leadingBit = 0 then f.minExponent
  else f.minExponent + (bits / f.leadingBit : Nat) - 1

end BinaryFormat

end ShaderGraph
