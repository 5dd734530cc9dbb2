import ShaderGraph.Numeric.Decimal

/-!
# 32-bit floats

A float is its bit pattern. Equality of patterns is equality of the type; `sameNumber` is equality
of numbers, under which zero equals its negation and a NaN equals nothing.
-/

namespace ShaderGraph

structure Binary32 where
  bits : UInt32
deriving DecidableEq, Repr, Inhabited

namespace Binary32

def signBit : Nat := 0x80000000

def isNegative (x : Binary32) : Bool :=
  signBit ≤ x.bits.toNat

/-- The bit pattern without its sign. -/
def magnitude (x : Binary32) : Nat :=
  x.bits.toNat % signBit

def isNaN (x : Binary32) : Bool :=
  BinaryFormat.binary32.infinity < x.magnitude

def isInfinite (x : Binary32) : Bool :=
  x.magnitude = BinaryFormat.binary32.infinity

def isFinite (x : Binary32) : Bool :=
  x.magnitude < BinaryFormat.binary32.infinity

def isZero (x : Binary32) : Bool :=
  x.magnitude = 0

def mantissa (x : Binary32) : Nat :=
  BinaryFormat.binary32.mantissa x.magnitude

def exponent (x : Binary32) : Int :=
  BinaryFormat.binary32.exponent x.magnitude

def ofMagnitude (negative : Bool) (magnitude : Nat) : Binary32 :=
  ⟨UInt32.ofNat (if negative then signBit + magnitude else magnitude)⟩

def zero : Binary32 := ⟨0⟩

def one : Binary32 := ⟨0x3f800000⟩

def half : Binary32 := ⟨0x3f000000⟩

def infinity (negative : Bool) : Binary32 :=
  ofMagnitude negative 0x7f800000

def nan (negative : Bool) : Binary32 :=
  ofMagnitude negative 0x7fc00000

/-- Equality of numbers. -/
def sameNumber (x y : Binary32) : Bool :=
  !x.isNaN && !y.isNaN && (x == y || (x.isZero && y.isZero))

def ofInt (n : Int) : Binary32 :=
  ofMagnitude (n < 0) (BinaryFormat.binary32.round n.natAbs 1)

/-- The nearest float to a decimal. -/
def ofDecimal (d : Decimal) : Binary32 :=
  ofMagnitude d.negative (d.round .binary32)

/-- The nearest float to the 64-bit float that is nearest to a decimal. -/
def ofDecimalViaBinary64 (d : Decimal) : Binary32 :=
  let wide := d.round .binary64
  if wide = BinaryFormat.binary64.infinity then infinity d.negative
  else
    let m := BinaryFormat.binary64.mantissa wide
    let e := BinaryFormat.binary64.exponent wide
    ofMagnitude d.negative
      (BinaryFormat.binary32.round (m * naturalPower 2 e) (naturalPower 2 (-e)))

/-- The integer part, cut off at zero below and at the greatest 32-bit number above. -/
def truncate (x : Binary32) : Nat :=
  if x.isNaN || x.isNegative then 0
  else if x.isInfinite then 0xffffffff
  else min 0xffffffff (x.mantissa * naturalPower 2 x.exponent / naturalPower 2 (-x.exponent))

/-- Whether the number is zero or above; false for a NaN. -/
def isNonNegative (x : Binary32) : Bool :=
  !x.isNaN && (!x.isNegative || x.isZero)

end Binary32

end ShaderGraph
