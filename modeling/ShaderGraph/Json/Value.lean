import ShaderGraph.Numeric.Shortest
import ShaderGraph.Text.Ascii

/-!
# JSON values

A float is written with the fewest digits that tell it from all others, and of two equally near
decimals the even one is taken. It has a point and no exponent if its leading power of ten lies
between -6 and 12, and else one digit in front of the point and a signed exponent. Numbers that are read
keep all of their digits, and objects the order of their members.
-/

namespace ShaderGraph.Json

/-! ## Numbers -/

/-- The decimal without the zeros at its end. -/
def withoutTrailingZeros : Nat → Decimal → Decimal
  | 0, d => d
  | limit + 1, d =>
    if d.coefficient % 10 = 0 && d.coefficient ≠ 0 then
      withoutTrailingZeros limit ⟨d.negative, d.coefficient / 10, d.exponent + 1⟩
    else d

def scientific (d : Decimal) : String :=
  let digits := d.digits
  let fraction := if digits.length ≤ 1 then "" else "." ++ String.ofList digits.tail
  let power := d.leadingPower
  let sign := if power < 0 then "-" else "+"
  d.sign ++ String.ofList (digits.take 1) ++ fraction ++ "e" ++ sign ++ toString power.natAbs

/-- Text of a finite float. -/
def floatText (x : Binary32) : String :=
  let d := x.shortest .even
  let power := d.leadingPower
  if x.isZero || (-6 ≤ power && power ≤ 12) then d.pointed
  else scientific (withoutTrailingZeros d.digits.length d)

/-- Reads the fraction after an integer, if there is one. -/
def readFraction : List Char → Option (List Char × List Char)
  | '.' :: cs =>
    let (ds, rest) := splitDigits cs
    if ds.isEmpty then none else some (ds, rest)
  | cs => some ([], cs)

/-- Reads the exponent after a number, if there is one. -/
def readExponent : List Char → Option (Int × List Char)
  | mark :: cs =>
    if mark = 'e' ∨ mark = 'E' then
      let (negative, body) := splitSign cs
      let (ds, rest) := splitDigits body
      if ds.isEmpty then none else some (signedValue negative (digitsValue ds), rest)
    else some (0, mark :: cs)
  | [] => some (0, [])

structure Numeral where
  value : Decimal
  /-- Whether it is written without a point and an exponent. -/
  isWhole : Bool
deriving DecidableEq, Repr

/-- Reads a number. An integer part of several digits does not start with a zero. -/
def readNumber (cs : List Char) : Option (Numeral × List Char) := do
  let (negative, body) := if cs.head? = some '-' then (true, cs.tail) else (false, cs)
  let (whole, rest) := splitDigits body
  if whole.isEmpty || (1 < whole.length && whole.head? = some '0') then none
  else
    let (fraction, afterFraction) ← readFraction rest
    let (e, afterExponent) ← readExponent afterFraction
    let value : Decimal := ⟨negative, digitsValue (whole ++ fraction), e - fraction.length⟩
    return (⟨value, rest.length = afterExponent.length⟩, afterExponent)

/-! ## Values -/

inductive Value
  | null
  | bool (b : Bool)
  | number (n : Numeral)
  | string (s : String)
  | array (items : List Value)
  | object (members : List (String × Value))
deriving Repr, Inhabited

namespace Value

/-- The member of an object with a name; of several the last. -/
def member? (name : String) : Value → Option Value
  | object members => members.reverse.lookup name
  | _ => none

end Value

end ShaderGraph.Json
