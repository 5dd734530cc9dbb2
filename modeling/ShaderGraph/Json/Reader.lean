import ShaderGraph.Json.Quoted
import ShaderGraph.Json.Value

/-!
# Reading JSON
-/

namespace ShaderGraph.Json

def isBlank (c : Char) : Bool :=
  c = ' ' || c = '\t' || c = '\n' || c = '\r'

def skipBlanks (cs : List Char) : List Char :=
  cs.dropWhile isBlank

/-- Reads what follows an item: the closing bracket, or a comma and more items. -/
def afterItem {α : Type} (close : Char) (item : α)
    (more : List Char → Option (List α × List Char)) (cs : List Char) :
    Option (List α × List Char) :=
  match skipBlanks cs with
  | c :: rest =>
    if c = close then some ([item], rest)
    else if c = ',' then (more rest).map fun p ↦ (item :: p.1, p.2)
    else none
  | [] => none

mutual

def readValue : Nat → List Char → Option (Value × List Char)
  | 0, _ => none
  | limit + 1, cs =>
    match skipBlanks cs with
    | 'n' :: 'u' :: 'l' :: 'l' :: rest => some (.null, rest)
    | 't' :: 'r' :: 'u' :: 'e' :: rest => some (.bool true, rest)
    | 'f' :: 'a' :: 'l' :: 's' :: 'e' :: rest => some (.bool false, rest)
    | '"' :: rest =>
      (readString (rest.length + 1) rest).map fun p ↦ (.string (String.ofList p.1), p.2)
    | '[' :: rest =>
      match skipBlanks rest with
      | ']' :: rest => some (.array [], rest)
      | rest => (readItems limit rest).map fun p ↦ (.array p.1, p.2)
    | '{' :: rest =>
      match skipBlanks rest with
      | '}' :: rest => some (.object [], rest)
      | rest => (readMembers limit rest).map fun p ↦ (.object p.1, p.2)
    | cs => (readNumber cs).map fun p ↦ (.number p.1, p.2)

/-- Reads items, of which there is at least one, and their closing bracket. -/
def readItems : Nat → List Char → Option (List Value × List Char)
  | 0, _ => none
  | limit + 1, cs => do
    let (v, rest) ← readValue limit cs
    afterItem ']' v (readItems limit) rest

/-- Reads members, of which there is at least one, and their closing brace. -/
def readMembers : Nat → List Char → Option (List (String × Value) × List Char)
  | 0, _ => none
  | limit + 1, cs =>
    match skipBlanks cs with
    | '"' :: rest => do
      let (name, rest) ← readString (rest.length + 1) rest
      match skipBlanks rest with
      | ':' :: rest =>
        let (v, rest) ← readValue limit rest
        afterItem '}' (String.ofList name, v) (readMembers limit) rest
      | _ => none
    | _ => none

end

/-- Reads a text that holds one value. -/
def Value.ofText? (s : String) : Option Value := do
  let (v, rest) ← readValue (2 * s.length + 2) s.toList
  if (skipBlanks rest).isEmpty then some v else none

end ShaderGraph.Json
