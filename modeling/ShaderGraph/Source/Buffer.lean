/-!
# Lines of a text and code buffers

A line ends at a line feed, and a carriage return just before the line feed belongs to the line end.
What follows the last line feed is a line too, unless it is empty; it keeps its carriage returns.

A buffer collects lines of source at the current indentation, one tab a level. Text that was
collected elsewhere is spliced in line by line at the current level; its empty lines stay empty.
-/

namespace ShaderGraph

/-! ## Lines -/

/-- Splits the rest of a text; `line` holds the characters of the current line in reverse. -/
def linesFrom (line : List Char) : List Char → List (List Char)
  | [] => if line.isEmpty then [] else [line.reverse]
  | '\n' :: cs =>
    (if line.head? = some '\r' then line.tail.reverse else line.reverse) :: linesFrom [] cs
  | c :: cs => linesFrom (c :: line) cs

def textLines (s : String) : List String :=
  (linesFrom [] s.toList).map String.ofList

/-- The text without the line feeds at its ends. -/
def trimLineFeeds (s : String) : String :=
  let cs := s.toList.dropWhile (· = '\n')
  String.ofList (cs.reverse.dropWhile (· = '\n')).reverse

/-! ## Buffers -/

structure CodeBuffer where
  text : String := ""
  level : Nat := 0
deriving DecidableEq, Repr, Inhabited

namespace CodeBuffer

def isEmpty (b : CodeBuffer) : Bool :=
  b.text.isEmpty

def line (b : CodeBuffer) (s : String) : CodeBuffer :=
  { b with text := b.text ++ String.ofList (List.replicate b.level '\t') ++ s ++ "\n" }

def indent (b : CodeBuffer) : CodeBuffer :=
  { b with level := b.level + 1 }

def dedent (b : CodeBuffer) : CodeBuffer :=
  { b with level := b.level - 1 }

def openBlock (b : CodeBuffer) : CodeBuffer :=
  (b.line "\x7b").indent

def closeBlock (b : CodeBuffer) : CodeBuffer :=
  b.dedent.line "\x7d"

/-- Writes one line of a spliced text. -/
def spliceLine (b : CodeBuffer) (s : String) : CodeBuffer :=
  if s.isEmpty then { b with text := b.text ++ "\n" } else b.line s

def splice (b : CodeBuffer) (text : String) : CodeBuffer :=
  (textLines text).foldl spliceLine b

end CodeBuffer

end ShaderGraph
