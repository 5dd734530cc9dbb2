import ShaderGraph.Numeric.Shortest
import ShaderGraph.Text.Ascii

/-!
# Numbers

An integer has a sign, a base marker, digits with underscores between them and the name of its type,
of which all but the digits may be missing. The name of the type is recognised only directly after
hexadecimal digits, so it can follow a base marker only if that marker looks like a digit. A float
is a decimal with an exponent and underscores, or one of the names of the special values.
-/

namespace ShaderGraph.Ron

/-- A type of integers: the name that may follow a number, and the range. -/
structure IntegerType where
  name : String
  least : Int
  greatest : Int
deriving DecidableEq, Repr

namespace IntegerType

def signed (name : String) (bits : Nat) : IntegerType :=
  let half : Int := Nat.pow 2 (bits - 1)
  ⟨name, -half, half - 1⟩

def unsigned (name : String) (bits : Nat) : IntegerType :=
  let bound : Int := Nat.pow 2 bits
  ⟨name, 0, bound - 1⟩

def byte : IntegerType := unsigned "u8" 8

def word : IntegerType := unsigned "u32" 32

def integer : IntegerType := signed "i32" 32

def wideUnsigned : IntegerType := unsigned "u64" 64

def wideSigned : IntegerType := signed "i64" 64

/-- The types whose names may follow a number. -/
def all : List IntegerType :=
  [signed "i8" 8, signed "i16" 16, integer, wideSigned, byte, unsigned "u16" 16, word,
    wideUnsigned]

def contains (t : IntegerType) (n : Int) : Bool :=
  t.least ≤ n && n ≤ t.greatest

end IntegerType

/-- Splits off the marker of a base. -/
def splitBase : List Char → Nat × List Char
  | '0' :: 'x' :: cs => (16, cs)
  | '0' :: 'o' :: cs => (8, cs)
  | '0' :: 'b' :: cs => (2, cs)
  | cs => (10, cs)

def isIntegerPart (c : Char) : Bool :=
  (hexValue? c).isSome || c = '_'

/-- Appends a digit of a base to a number; an underscore changes nothing. -/
def appendDigit? (base n : Nat) (c : Char) : Option Nat :=
  if c = '_' then some n
  else
    match hexValue? c with
    | some d => if d < base then some (base * n + d) else none
    | none => none

/-- Value of digits with a base marker in front of them. -/
def ofBasedDigits? (cs : List Char) : Option Nat :=
  match splitBase cs with
  | (_, []) => none
  | (_, '_' :: _) => none
  | (base, ds) => ds.foldlM (appendDigit? base) 0

/-- Value of an integer and the name of the type that follows it. -/
def readInteger? (text : List Char) : Option (Int × Option String) := do
  let (negative, body) := splitSign text
  let digits := body.takeWhile isIntegerPart
  let suffix := String.ofList (body.drop digits.length)
  let typed := IntegerType.all.any fun t ↦ t.name = suffix
  let n ← ofBasedDigits? (if typed then digits else body)
  return (signedValue negative n, if typed then some suffix else none)

/-- The integer of a type that a number denotes. -/
def integerOf? (t : IntegerType) (text : List Char) : Option Int := do
  let (n, name?) ← readInteger? text
  if (name?.all fun name ↦ name = t.name) && t.contains n then some n else none

/-- Whether underscores stand only where they are allowed: after the first digit or exponent mark,
but not between a point and the next digit. -/
def underscoresFit : Bool → List Char → Bool
  | _, [] => true
  | allowed, '_' :: cs => allowed && underscoresFit allowed cs
  | _, '.' :: cs => underscoresFit false cs
  | allowed, c :: cs => underscoresFit (allowed || c.isDigit || c = 'e' || c = 'E') cs

/-- Reads an exponent, of which only the mark may be missing together with all the rest. -/
def exponentOf? : List Char → Option Int
  | [] => some 0
  | mark :: cs =>
    let (negative, ds) := splitSign cs
    if (mark = 'e' || mark = 'E') && !ds.isEmpty && ds.all Char.isDigit then
      some (signedValue negative (digitsValue ds))
    else none

/-- Reads a decimal: digits with a point somewhere among or around them, and an exponent. -/
def decimalOf? (text : List Char) : Option Decimal := do
  let (negative, body) := splitSign text
  let (whole, rest) := splitDigits body
  let (fraction, rest) := if rest.head? = some '.' then splitDigits rest.tail else ([], rest)
  if whole.isEmpty && fraction.isEmpty then none
  else
    let e ← exponentOf? rest
    return ⟨negative, digitsValue (whole ++ fraction), e - fraction.length⟩

def isFloatPart (c : Char) : Bool :=
  c.isDigit || c = 'e' || c = 'E' || c = '.' || c = '+' || c = '-' || c = '_'

/-- Reads a decimal that may hold underscores and may end in the name of its type. -/
def readDecimal? (suffixes : List String) (text : List Char) : Option Decimal :=
  let body := text.takeWhile isFloatPart
  let suffix := String.ofList (text.drop body.length)
  if (suffix = "" || suffix ∈ suffixes) && underscoresFit false body then
    decimalOf? (body.filter (· ≠ '_'))
  else none

/-- Names of infinity and of NaN, with the names of types that may follow them. -/
def specialFloat? (suffixes : List String) (negative : Bool) (name : String) : Option Binary32 :=
  if ("" :: suffixes).any fun s ↦ name = "inf" ++ s then some (.infinity negative)
  else if ("" :: suffixes).any fun s ↦ name = "NaN" ++ s then some (.nan negative)
  else none

/-- The float that a number denotes. -/
def floatOf? (text : List Char) : Option Binary32 :=
  let (negative, body) := splitSign text
  (specialFloat? ["f32"] negative (String.ofList body)).or
    ((readDecimal? ["f32"] text).map Binary32.ofDecimal)

/-- Whether a number denotes a value of some type. -/
def isNumber (text : List Char) : Bool :=
  let (negative, body) := splitSign text
  let suffixes := ["f32", "f64"]
  (specialFloat? suffixes negative (String.ofList body)).isSome ||
    (readDecimal? suffixes text).isSome ||
    match readInteger? text with
    | some (n, some name) => IntegerType.all.any fun t ↦ t.name = name && t.contains n
    | some (n, none) => (if negative then IntegerType.wideSigned else .wideUnsigned).contains n
    | none => false

/-- Names that denote floats and are no other values. -/
def isFloatName (name : String) : Bool :=
  (specialFloat? ["f32", "f64"] false name).isSome

end ShaderGraph.Ron
