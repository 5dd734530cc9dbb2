import ShaderGraph.Numeric.Shortest
import ShaderGraph.Ron.Quoted
import ShaderGraph.Storage.Datum

/-!
# Printing of data

Lists, maps and records have one entry a line, indented by four spaces a level, each followed by a
comma. Everything else stays on its line. Names of records and of types around one value are
written on demand.
-/

namespace ShaderGraph.Ron

/-- Names that would be read as values. -/
def valueNames : List String :=
  ["true", "false", "Some", "None", "inf", "inff32", "inff64", "NaN", "NaNf32", "NaNf64"]

/-- A name that would be read as a value is marked. -/
def caseText (name : String) : String :=
  if name ∈ valueNames then "r#" ++ name else name

def floatText (x : Binary32) : String :=
  if x.isNaN && x.isNegative then "-" ++ x.literal else x.literal

def lineStart (level : Nat) : String :=
  "\n" ++ String.ofList (List.replicate (4 * level) ' ')

/-- Entries on lines of their own, between brackets at the given level. -/
def block (opening closing : String) (level : Nat) (entries : List String) : String :=
  if entries.isEmpty then opening ++ closing
  else
    let lines := entries.map fun entry ↦ lineStart (level + 1) ++ entry ++ ","
    opening ++ String.join lines ++ lineStart level ++ closing

mutual

/-- Text of a datum whose first line stands at the given level. -/
def print (names : Bool) : Nat → Datum → String
  | _, .unit => "()"
  | _, .bool b => if b then "true" else "false"
  | _, .byte x => toString x.toNat
  | _, .word x => toString x.toNat
  | _, .integer x => toString x.toInt
  | _, .float x => floatText x
  | _, .text s => quote s
  | _, .absent => "None"
  | level, .present d => "Some(" ++ print names level d ++ ")"
  | level, .list items => block "[" "]" level (printItems names (level + 1) items)
  | level, .map entries => block "\x7b" "\x7d" level (printEntries names (level + 1) entries)
  | level, .tuple items => "(" ++ ", ".intercalate (printItems names level items) ++ ")"
  | level, .wrapper name d => (if names then name else "") ++ "(" ++ print names level d ++ ")"
  | level, .record name fields =>
    (if names then name else "") ++ block "(" ")" level (printFields names (level + 1) fields)
  | _, .variant _ name .unit => caseText name
  | level, .variant _ name (.record _ fields) =>
    caseText name ++ block "(" ")" level (printFields names (level + 1) fields)
  | level, .variant _ name payload => caseText name ++ "(" ++ print names level payload ++ ")"
termination_by structural _ d => d

def printItems (names : Bool) : Nat → List Datum → List String
  | _, [] => []
  | level, d :: ds => print names level d :: printItems names level ds
termination_by structural _ ds => ds

def printFields (names : Bool) : Nat → List (String × Datum) → List String
  | _, [] => []
  | level, (name, d) :: fields =>
    (name ++ ": " ++ print names level d) :: printFields names level fields
termination_by structural _ fields => fields

def printEntries (names : Bool) : Nat → List (Datum × Datum) → List String
  | _, [] => []
  | level, (key, d) :: entries =>
    (print names level key ++ ": " ++ print names level d) :: printEntries names level entries
termination_by structural _ entries => entries

end

/-- The document of a datum. -/
def write (names : Bool) (d : Datum) : String :=
  print names 0 d

end ShaderGraph.Ron
