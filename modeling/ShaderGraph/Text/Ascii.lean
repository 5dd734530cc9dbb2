/-!
# Letters and digits of ASCII text

Only the ASCII letters have a case here; all other characters are their own lower and upper forms.
-/

namespace ShaderGraph

/-! ## Letter case -/

def asciiLower (s : String) : String :=
  String.ofList (s.toList.map Char.toLower)

def asciiUpper (s : String) : String :=
  String.ofList (s.toList.map Char.toUpper)

/-- Equality up to the case of ASCII letters. -/
def equalIgnoringCase (s t : String) : Bool :=
  asciiLower s = asciiLower t

/-! ## Decimal digits -/

/-- Splits off a sign; the flag tells whether it is a minus. -/
def splitSign : List Char → Bool × List Char
  | '-' :: cs => (true, cs)
  | '+' :: cs => (false, cs)
  | cs => (false, cs)

/-- Splits off the digits at the start. -/
def splitDigits (cs : List Char) : List Char × List Char :=
  (cs.takeWhile Char.isDigit, cs.dropWhile Char.isDigit)

/-- The number that digits denote. -/
def digitsValue (ds : List Char) : Nat :=
  ds.foldl (fun n c ↦ 10 * n + (c.toNat - '0'.toNat)) 0

/-- The number with a sign. -/
def signedValue (negative : Bool) (n : Nat) : Int :=
  if negative then -n else n

/-! ## Hexadecimal digits -/

/-- The value of a hexadecimal digit of either case. -/
def hexValue? (c : Char) : Option Nat :=
  if '0' ≤ c ∧ c ≤ '9' then some (c.toNat - '0'.toNat)
  else if 'a' ≤ c ∧ c ≤ 'f' then some (c.toNat - 'a'.toNat + 10)
  else if 'A' ≤ c ∧ c ≤ 'F' then some (c.toNat - 'A'.toNat + 10)
  else none

def hexDigit (n : Nat) : Char :=
  if n < 10 then Char.ofNat ('0'.toNat + n) else Char.ofNat ('a'.toNat + (n - 10))

/-- The last `width` digits of a number, the most significant one first. -/
def hexDigits : Nat → Nat → List Char
  | 0, _ => []
  | width + 1, n => hexDigits width (n / 16) ++ [hexDigit (n % 16)]

/-- The number that a list of digits denotes. -/
def ofHexDigits? (cs : List Char) : Option Nat :=
  cs.foldlM (fun n c ↦ (hexValue? c).map (16 * n + ·)) 0

end ShaderGraph
