import ShaderGraph.Text.Ascii

/-!
# JSON strings

Quotes, backslashes and control characters are escaped, all other characters stand for themselves.
Escapes of characters beyond the first 65536 are pairs of surrogates.
-/

namespace ShaderGraph.Json

def escapeChar (c : Char) : List Char :=
  if c = '"' ∨ c = '\\' then ['\\', c]
  else if c = '\x08' then ['\\', 'b']
  else if c = '\x0c' then ['\\', 'f']
  else if c = '\n' then ['\\', 'n']
  else if c = '\r' then ['\\', 'r']
  else if c = '\t' then ['\\', 't']
  else if c.toNat < 32 then '\\' :: 'u' :: hexDigits 4 c.toNat
  else [c]

def quote (s : String) : String :=
  String.ofList ('"' :: (s.toList.flatMap escapeChar ++ ['"']))

def ofShortEscape? (letter : Char) : Option Char :=
  if letter = '"' ∨ letter = '\\' ∨ letter = '/' then some letter
  else if letter = 'b' then some '\x08'
  else if letter = 'f' then some '\x0c'
  else if letter = 'n' then some '\n'
  else if letter = 'r' then some '\r'
  else if letter = 't' then some '\t'
  else none

def isHighSurrogate (n : Nat) : Bool :=
  0xd800 ≤ n && n < 0xdc00

def isLowSurrogate (n : Nat) : Bool :=
  0xdc00 ≤ n && n < 0xe000

/-- The character of a pair of surrogates. -/
def ofSurrogates (high low : Nat) : Char :=
  Char.ofNat (0x10000 + (high - 0xd800) * 0x400 + (low - 0xdc00))

/-- Reads an escape after its backslash. -/
def readEscape : List Char → Option (Char × List Char)
  | 'u' :: a :: b :: c :: d :: cs => do
    let n ← ofHexDigits? [a, b, c, d]
    if isHighSurrogate n then
      match cs with
      | '\\' :: 'u' :: e :: f :: g :: h :: cs =>
        let low ← ofHexDigits? [e, f, g, h]
        if isLowSurrogate low then return (ofSurrogates n low, cs) else none
      | _ => none
    else if isLowSurrogate n then none
    else return (Char.ofNat n, cs)
  | letter :: cs => (ofShortEscape? letter).map fun c ↦ (c, cs)
  | [] => none

/-- Reads a string after its opening quote. -/
def readString : Nat → List Char → Option (List Char × List Char)
  | _ + 1, '"' :: cs => some ([], cs)
  | limit + 1, '\\' :: cs => do
    let (c, rest) ← readEscape cs
    let (more, rest) ← readString limit rest
    return (c :: more, rest)
  | limit + 1, c :: cs =>
    if c.toNat < 32 then none
    else do
      let (more, rest) ← readString limit cs
      return (c :: more, rest)
  | _, _ => none

end ShaderGraph.Json
