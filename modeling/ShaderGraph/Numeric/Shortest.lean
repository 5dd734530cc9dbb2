import ShaderGraph.Numeric.Binary32

/-!
# Shortest decimals of floats

Every decimal between the midpoints to the two neighbours of a float rounds to that float; the
midpoints themselves do if the mantissa is even. Among the decimals of that interval `shortest`
takes one on the coarsest power of ten, and of the two multiples next to the float the nearer one;
what is done on a tie is a parameter. All of it is exact arithmetic on natural numbers.
-/

namespace ShaderGraph

/-- Which of two multiples at the same distance is taken. -/
inductive TieRule
  | upper
  | even
deriving DecidableEq, Repr

/-- Whether the upper of two multiples is taken, the lower of which has the given factor. -/
def TieRule.takesUpper (factor : Nat) : TieRule → Bool
  | upper => true
  | even => factor % 2 = 1

namespace Binary32

/-- Four times the float in units of a quarter of its last place, with the ends of its interval. -/
structure Interval where
  lower : Nat
  center : Nat
  upper : Nat
  closed : Bool

/-- The lower neighbour of a power of two is only half as far away as the upper one. -/
def interval (x : Binary32) : Interval where
  lower := 4 * x.mantissa - if x.mantissa = 0x800000 ∧ x.exponent ≠ -149 then 1 else 2
  center := 4 * x.mantissa
  upper := 4 * x.mantissa + 2
  closed := x.mantissa % 2 = 0

/-- The multiple of `step` to print for an interval scaled by `scale`, if one lies inside. -/
def Interval.multiple? (i : Interval) (tie : TieRule) (scale step : Nat) : Option Nat :=
  let d := i.center * scale / step
  let below := d * step
  let above := below + step
  let fitsBelow := i.lower * scale < below || (i.closed && i.lower * scale == below)
  let fitsAbove := above < i.upper * scale || (i.closed && above == i.upper * scale)
  let gapBelow := i.center * scale - below
  let gapAbove := above - i.center * scale
  let takesUpper := gapAbove < gapBelow || (gapAbove == gapBelow && tie.takesUpper d)
  if fitsAbove && (!fitsBelow || takesUpper) then
    some (d + 1)
  else if fitsBelow then some d
  else none

/-- Tries the powers of ten from `limit - 61` downwards. -/
def Interval.search (i : Interval) (tie : TieRule) (exponent : Int) : Nat → Nat × Int
  | 0 => (i.center, 0)
  | limit + 1 =>
    let p : Int := (limit : Int) - 60
    let q := exponent - 2
    match i.multiple? tie (naturalPower 2 q * naturalPower 10 (-p))
        (naturalPower 2 (-q) * naturalPower 10 p) with
    | some d => (d, p)
    | none => i.search tie exponent limit

/-- The shortest decimal of a finite float. -/
def shortest (tie : TieRule) (x : Binary32) : Decimal :=
  if x.isZero then ⟨x.isNegative, 0, 0⟩
  else
    let (d, p) := x.interval.search tie x.exponent 100
    ⟨x.isNegative, d, p⟩

/-- The shortest decimal in positional form, the upper one on a tie; whole numbers have no point. -/
def display (x : Binary32) : String :=
  if x.isNaN then "NaN"
  else if x.isInfinite then if x.isNegative then "-inf" else "inf"
  else (x.shortest .upper).positional

/-- Like `display`, but whole numbers end in `.0`. -/
def literal (x : Binary32) : String :=
  if x.isFinite then (x.shortest .upper).pointed else x.display

end Binary32

end ShaderGraph
