import ShaderGraph.Text.Ascii
import ShaderGraph.Text.CharacterSets

/-!
# Quoted text

Text is written between double quotes. Quotes, backslashes and characters that are not printed are
written as escapes. Escapes by code point and by byte are read as well as those that are written;
the bytes of one character have to follow each other.
-/

namespace ShaderGraph.Ron

/-- The letter of a short escape. -/
def shortEscape? (c : Char) : Option Char :=
  if c = '"' ∨ c = '\'' ∨ c = '\\' then some c
  else if c = '\n' then some 'n'
  else if c = '\r' then some 'r'
  else if c = '\t' then some 't'
  else if c = '\x00' then some '0'
  else none

def escapeChar (c : Char) : List Char :=
  match shortEscape? c with
  | some letter => ['\\', letter]
  | none =>
    if isUnprintable c then '\\' :: 'u' :: '{' :: (Nat.toDigits 16 c.toNat ++ ['}']) else [c]

def quote (s : String) : String :=
  String.ofList ('"' :: (s.toList.flatMap escapeChar ++ ['"']))

/-- The character of a short escape. -/
def ofShortEscape? (letter : Char) : Option Char :=
  if letter = '"' ∨ letter = '\'' ∨ letter = '\\' then some letter
  else if letter = 'n' then some '\n'
  else if letter = 'r' then some '\r'
  else if letter = 't' then some '\t'
  else if letter = '0' then some '\x00'
  else none

/-- What an escape denotes. -/
inductive Escape
  | character (c : Char)
  | byte (b : UInt8)

/-- The character with a code point of one to six digits. -/
def ofCodePoint? (digits : List Char) : Option Char := do
  if digits.isEmpty || 6 < digits.length then none
  else
    let n ← ofHexDigits? digits
    if n.isValidChar then some (Char.ofNat n) else none

/-- Reads an escape after its backslash. -/
def readEscape : List Char → Option (Escape × List Char)
  | 'x' :: a :: b :: cs => do
    let n ← ofHexDigits? [a, b]
    return (.byte (UInt8.ofNat n), cs)
  | 'u' :: '{' :: cs => do
    let digits := cs.takeWhile (· ≠ '}')
    let c ← ofCodePoint? digits
    match cs.drop digits.length with
    | '}' :: rest => return (.character c, rest)
    | _ => none
  | letter :: cs => (ofShortEscape? letter).map fun c ↦ (.character c, cs)
  | [] => none

/-- The character that a list of bytes encodes, if they are all of its bytes. -/
def ofUtf8? (bytes : List UInt8) : Option Char := do
  match (← String.fromUTF8? ⟨bytes.toArray⟩).toList with
  | [c] => some c
  | _ => none

/-- Reads up to `limit` more byte escapes until the bytes make up a character. -/
def readBytes (bytes : List UInt8) : Nat → List Char → Option (Char × List Char)
  | 0, _ => none
  | limit + 1, '\\' :: 'x' :: a :: b :: cs => do
    let n ← ofHexDigits? [a, b]
    let bytes := bytes ++ [UInt8.ofNat n]
    match ofUtf8? bytes with
    | some c => return (c, cs)
    | none => readBytes bytes limit cs
  | _ + 1, _ => none

/-- Reads an escape in a text after its backslash. -/
def readTextEscape (cs : List Char) : Option (Char × List Char) := do
  match ← readEscape cs with
  | (.character c, rest) => return (c, rest)
  | (.byte b, rest) =>
    if b < 128 then return (Char.ofNat b.toNat, rest) else readBytes [b] 3 rest

/-- Reads a text after its opening quote. -/
def readText : Nat → List Char → Option (List Char × List Char)
  | _ + 1, '"' :: cs => some ([], cs)
  | limit + 1, '\\' :: cs => do
    let (c, rest) ← readTextEscape cs
    let (more, rest) ← readText limit rest
    return (c :: more, rest)
  | limit + 1, c :: cs => do
    let (more, rest) ← readText limit cs
    return (c :: more, rest)
  | _, _ => none

/-- Reads a character after its opening quote. -/
def readCharacter : List Char → Option (Char × List Char)
  | '\\' :: cs => do
    let (e, rest) ← readEscape cs
    let c ← match e with
      | .character c => some c
      | .byte b => if b < 128 then some (Char.ofNat b.toNat) else none
    match rest with
    | '\'' :: rest => return (c, rest)
    | _ => none
  | c :: '\'' :: cs => some (c, cs)
  | _ => none

/-- The byte that an escape in a byte text denotes. Code points are not allowed there. -/
def readByteEscape : List Char → Option (UInt8 × List Char)
  | 'u' :: _ => none
  | cs => do
    match ← readEscape cs with
    | (.character c, rest) => return (c.toUInt8, rest)
    | (.byte b, rest) => return (b, rest)

/-- Reads a byte after its marker and opening quote. -/
def readByte : List Char → Option (UInt8 × List Char)
  | '\\' :: cs => do
    match ← readByteEscape cs with
    | (b, '\'' :: rest) => return (b, rest)
    | _ => none
  | c :: '\'' :: cs => if c.toNat < 128 then some (c.toUInt8, cs) else none
  | _ => none

/-- Reads a byte text after its marker and opening quote. -/
def readByteText : Nat → List Char → Option (List UInt8 × List Char)
  | _ + 1, '"' :: cs => some ([], cs)
  | limit + 1, '\\' :: cs => do
    let (b, rest) ← readByteEscape cs
    let (more, rest) ← readByteText limit rest
    return (b :: more, rest)
  | limit + 1, c :: cs => do
    let (more, rest) ← readByteText limit cs
    return ((String.singleton c).toUTF8.toList ++ more, rest)
  | _, _ => none

/-- Reads up to a closing mark. -/
def readUntil (mark : List Char) : List Char → Option (List Char × List Char)
  | [] => none
  | c :: cs =>
    if mark.isPrefixOf (c :: cs) then some ([], (c :: cs).drop mark.length)
    else (readUntil mark cs).map fun p ↦ (c :: p.1, p.2)

/-- Reads a raw text after its marker: as many hash signs as close it, and a quote. -/
def readRaw (cs : List Char) : Option (List Char × List Char) := do
  let hashes := cs.takeWhile (· = '#')
  match cs.drop hashes.length with
  | '"' :: rest => readUntil ('"' :: hashes) rest
  | _ => none

end ShaderGraph.Ron
