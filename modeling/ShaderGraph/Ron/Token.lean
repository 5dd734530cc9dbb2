import ShaderGraph.Ron.Quoted
import ShaderGraph.Text.CharacterSets

/-!
# Tokens

A text is a list of tokens with blanks and comments in between. Comments are `//` up to the end of
the line and `/* */`, which nest. A number is taken as its characters; what it means depends on the
type that is expected.
-/

namespace ShaderGraph.Ron

structure Identifier where
  text : String
  /-- Whether it is marked by `r#`, which keeps it from being taken for a keyword. -/
  isRaw : Bool := false
deriving DecidableEq, Repr

inductive Token
  /-- A bracket, comma, colon, hash or exclamation mark. -/
  | mark (c : Char)
  | name (id : Identifier)
  | number (text : List Char)
  | text (s : String)
  | character (c : Char)
  | byte (b : UInt8)
  | bytes (bs : List UInt8)
deriving DecidableEq, Repr

def isBlank (c : Char) : Bool :=
  c ∈ [' ', '\t', '\n', '\x0b', '\x0c', '\r', '\u0085', '\u200e', '\u200f', '\u2028', '\u2029']

def isMark (c : Char) : Bool :=
  c ∈ ['(', ')', '[', ']', '{', '}', ',', ':', '#', '!']

def isNumberStart (c : Char) : Bool :=
  c.isDigit || c = '+' || c = '-' || c = '.'

def isNumberPart (c : Char) : Bool :=
  c.isAlphanum || c = '_' || c = '+' || c = '-' || c = '.'

def isRawPart (c : Char) : Bool :=
  isIdentifierContinue c || c = '.' || c = '+' || c = '-'

/-- Reads a block comment with `depth` comments around it, after its opening. -/
def skipBlock : Nat → List Char → Option (List Char)
  | depth, '/' :: '*' :: cs => skipBlock (depth + 1) cs
  | 0, '*' :: '/' :: cs => some cs
  | depth + 1, '*' :: '/' :: cs => skipBlock depth cs
  | depth, _ :: cs => skipBlock depth cs
  | _, [] => none

/-- Reads a comment after its first slash. -/
def skipComment : List Char → Option (List Char)
  | '/' :: cs => some (cs.dropWhile (· ≠ '\n'))
  | '*' :: cs => skipBlock 0 cs
  | _ => none

def readIdentifier (cs : List Char) : Token × List Char :=
  let text := cs.takeWhile isIdentifierContinue
  (.name { text := String.ofList text }, cs.drop text.length)

def readRawIdentifier (cs : List Char) : Option (Token × List Char) :=
  let text := cs.takeWhile isRawPart
  if text.isEmpty then none
  else some (.name { text := String.ofList text, isRaw := true }, cs.drop text.length)

def textToken (p : List Char × List Char) : Token × List Char :=
  (.text (String.ofList p.1), p.2)

def bytesToken (p : List Char × List Char) : Token × List Char :=
  (.bytes (String.ofList p.1).toUTF8.toList, p.2)

/-- Reads a token that starts with the first character. -/
def readToken : List Char → Option (Token × List Char)
  | '"' :: cs => (readText (cs.length + 1) cs).map textToken
  | '\'' :: cs => (readCharacter cs).map fun p ↦ (.character p.1, p.2)
  | 'b' :: '\'' :: cs => (readByte cs).map fun p ↦ (.byte p.1, p.2)
  | 'b' :: '"' :: cs => (readByteText (cs.length + 1) cs).map fun p ↦ (.bytes p.1, p.2)
  | 'b' :: 'r' :: '"' :: cs => (readRaw ('"' :: cs)).map bytesToken
  | 'b' :: 'r' :: '#' :: cs => (readRaw ('#' :: cs)).map bytesToken
  | 'r' :: '"' :: cs => (readRaw ('"' :: cs)).map textToken
  | 'r' :: '#' :: '"' :: cs => (readRaw ('#' :: '"' :: cs)).map textToken
  | 'r' :: '#' :: '#' :: cs => (readRaw ('#' :: '#' :: cs)).map textToken
  | 'r' :: '#' :: cs => readRawIdentifier cs
  | c :: cs =>
    if isMark c then some (.mark c, cs)
    else if isNumberStart c then
      let text := c :: cs.takeWhile isNumberPart
      some (.number text, (c :: cs).drop text.length)
    else if isIdentifierStart c then some (readIdentifier (c :: cs))
    else none
  | [] => none

/-- Reads tokens up to the end of the text. -/
def tokensWithin : Nat → List Char → Option (List Token)
  | _, [] => some []
  | 0, _ => none
  | limit + 1, c :: cs => do
    if isBlank c then tokensWithin limit cs
    else if c = '/' then tokensWithin limit (← skipComment cs)
    else
      let (t, rest) ← readToken (c :: cs)
      return t :: (← tokensWithin limit rest)

/-- The tokens of a text. Every step reads a character at least. -/
def tokens? (s : String) : Option (List Token) :=
  tokensWithin s.length s.toList

end ShaderGraph.Ron
