import ShaderGraph.Proofs.Numeric.Decimal
import ShaderGraph.Proofs.Text.Phrase

/-!
# Expressions of the target languages

The part of the expressions of the target languages that operands are made of: names, unsigned numbers,
selections, elements, calls, negations and conversions, without binary operators and parentheses for
grouping. Tokens are as long as possible, so two minus signs next to each other are a decrement and no
negation of a negation. A selection, an element or a call belongs to the primary expression in front of
it, and negations and conversions apply to all of the primary expression that follows.
-/

namespace ShaderGraph

inductive Expression
  | name (text : String)
  /-- Digits, with a point among them or after them, or without one. -/
  | number (text : String)
  | select (e : Expression) (field : String)
  | element (e index : Expression)
  | call (f : Expression) (args : List Expression)
  | negative (e : Expression)
  | conversion (type : String) (e : Expression)
deriving Repr

namespace Expression

/-- Whether selections, elements and calls of this expression need no parentheses around it. -/
def isPrimary : Expression → Bool
  | name _ | number _ | select .. | element .. | call .. => true
  | negative _ | conversion .. => false

end Expression

def isWordCharacter (c : Char) : Bool :=
  c.isAlphanum || c = '_'

def splitWord (cs : List Char) : String × List Char :=
  (String.ofList (cs.takeWhile isWordCharacter), cs.dropWhile isWordCharacter)

/-- Splits off digits and a point with the digits after it. -/
def splitNumber (cs : List Char) : String × List Char :=
  let (whole, rest) := splitDigits cs
  if rest.head? = some '.' then
    let (fraction, rest) := splitDigits rest.tail
    (String.ofList (whole ++ '.' :: fraction), rest)
  else (String.ofList whole, rest)

/-- Splits off a name or a number. -/
def splitAtom? (cs : List Char) : Option (Expression × List Char) :=
  match cs.head? with
  | none => none
  | some c =>
    if c.isDigit then some (.number (splitNumber cs).1, (splitNumber cs).2)
    else if isWordCharacter c then some (.name (splitWord cs).1, (splitWord cs).2)
    else none

/-- Splits off the name of a type in parentheses. -/
def splitConversion? (types : List String) (cs : List Char) : Option (String × List Char) :=
  if cs.head? = some '(' then
    let (word, rest) := splitWord cs.tail
    if word ∈ types ∧ rest.head? = some ')' then some (word, rest.tail) else none
  else none

/-- Splits off a minus that is no part of a decrement. -/
def splitMinus? : List Char → Option (List Char)
  | '-' :: '-' :: _ => none
  | '-' :: cs => some cs
  | _ => none

/-- What may follow a primary expression as a part of it. -/
inductive Suffix
  | field (name : String)
  | index
  | arguments

def splitSuffix? : List Char → Option (Suffix × List Char)
  | '.' :: cs => some (.field (splitWord cs).1, (splitWord cs).2)
  | '[' :: cs => some (.index, cs)
  | '(' :: cs => some (.arguments, cs)
  | _ => none

section Reading

variable (types : List String)

mutual

/-- Reads an expression at the start of a text. -/
def readExpression : Nat → List Char → Option (Expression × List Char)
  | 0, _ => none
  | limit + 1, cs =>
    match splitMinus? cs, splitConversion? types cs, splitAtom? cs with
    | some rest, _, _ => (readExpression limit rest).map fun p ↦ (.negative p.1, p.2)
    | none, some (type, rest), _ =>
      (readExpression limit rest).map fun p ↦ (.conversion type p.1, p.2)
    | none, none, some (e, rest) => readSuffixes limit e rest
    | none, none, none => none

/-- Reads what belongs to a primary expression after a part of it. -/
def readSuffixes : Nat → Expression → List Char → Option (Expression × List Char)
  | 0, _, _ => none
  | limit + 1, e, cs =>
    match splitSuffix? cs with
    | none => some (e, cs)
    | some (.field name, rest) =>
      if name = "" then none else readSuffixes limit (.select e name) rest
    | some (.index, rest) => do
      let (i, rest) ← readExpression limit rest
      if rest.head? = some ']' then readSuffixes limit (.element e i) rest.tail else none
    | some (.arguments, rest) => do
      let (args, rest) ← readArguments limit rest
      readSuffixes limit (.call e args) rest

/-- Reads arguments up to the parenthesis that closes them. -/
def readArguments : Nat → List Char → Option (List Expression × List Char)
  | 0, _ => none
  | limit + 1, cs => do
    let (e, rest) ← readExpression limit cs
    if rest.head? = some ')' then some ([e], rest.tail)
    else if rest.head? = some ',' then do
      let (args, rest) ← readArguments limit (rest.tail.dropWhile Char.isWhitespace)
      some (e :: args, rest)
    else none

end

/-- The expression that a text is. -/
def expression? (text : String) : Option Expression :=
  match readExpression types (2 * text.toList.length + 1) text.toList with
  | some (e, []) => some e
  | _ => none

end Reading

example : expression? ["float3"] "--1.0" = none := by rfl

example : expression? ["float3"] "(float3)v0.xy" =
    some (.conversion "float3" (.select (.name "v0") "xy")) := by rfl

example : expression? [] "texture(a_b, vec3(v0.xy, -1.0))[2]" =
    some (.element (.call (.name "texture") [.name "a_b", .call (.name "vec3")
      [.select (.name "v0") "xy", .negative (.number "1.0")]]) (.number "2")) := by rfl

end ShaderGraph
