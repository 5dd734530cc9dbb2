import ShaderGraph.Json.Quoted
import ShaderGraph.Json.Value
import ShaderGraph.Storage.Datum

/-!
# Printing of data as JSON

Arrays and objects have one entry a line, indented by two spaces a level. Types around one value are
written as the value, and a case with a payload as an object with one member. Floats that are not
finite are written as `null`.
-/

namespace ShaderGraph.Json

def lineStart (level : Nat) : String :=
  "\n" ++ String.ofList (List.replicate (2 * level) ' ')

/-- Entries on lines of their own, between brackets at the given level. -/
def block (opening closing : String) (level : Nat) (entries : List String) : String :=
  if entries.isEmpty then opening ++ closing
  else
    let start := lineStart (level + 1)
    opening ++ start ++ ("," ++ start).intercalate entries ++ lineStart level ++ closing

/-- An object with one member. -/
def singleton (level : Nat) (name value : String) : String :=
  block "\x7b" "\x7d" level [quote name ++ ": " ++ value]

/-- The name of a member. -/
def keyText (d : Datum) (text : String) : String :=
  match d with
  | .text _ | .variant _ _ .unit | .wrapper .. => text
  | _ => quote text

mutual

/-- Text of a datum whose first line stands at the given level. -/
def print : Nat → Datum → String
  | _, .unit => "null"
  | _, .bool b => if b then "true" else "false"
  | _, .byte x => toString x.toNat
  | _, .word x => toString x.toNat
  | _, .integer x => toString x.toInt
  | _, .float x => if x.isFinite then floatText x else "null"
  | _, .text s => quote s
  | _, .absent => "null"
  | level, .present d => print level d
  | level, .list items => block "[" "]" level (printItems (level + 1) items)
  | level, .map entries => block "\x7b" "\x7d" level (printEntries (level + 1) entries)
  | level, .tuple items => block "[" "]" level (printItems (level + 1) items)
  | level, .wrapper _ d => print level d
  | level, .record _ fields => block "\x7b" "\x7d" level (printFields (level + 1) fields)
  | _, .variant _ name .unit => quote name
  | level, .variant _ name payload => singleton level name (print (level + 1) payload)
termination_by structural _ d => d

def printItems : Nat → List Datum → List String
  | _, [] => []
  | level, d :: ds => print level d :: printItems level ds
termination_by structural _ ds => ds

def printFields : Nat → List (String × Datum) → List String
  | _, [] => []
  | level, (name, d) :: fields =>
    (quote name ++ ": " ++ print level d) :: printFields level fields
termination_by structural _ fields => fields

def printEntries : Nat → List (Datum × Datum) → List String
  | _, [] => []
  | level, (key, d) :: entries =>
    (keyText key (print level key) ++ ": " ++ print level d) :: printEntries level entries
termination_by structural _ entries => entries

end

/-- The document of a datum. -/
def write (d : Datum) : String :=
  print 0 d

end ShaderGraph.Json
