import ShaderGraph.Ron.Token

/-!
# Terms

A document is a term, after attributes that enable extensions. Items of a bracket are separated by
commas, and one more comma may follow the last item.
-/

namespace ShaderGraph.Ron

inductive Term
  | number (text : List Char)
  | text (s : String)
  | character (c : Char)
  | byte (b : UInt8)
  | bytes (bs : List UInt8)
  | name (id : Identifier)
  /-- Items in parentheses, after a name in some cases. -/
  | group (name? : Option Identifier) (items : List Term)
  /-- Named fields in parentheses, after a name in some cases. There is at least one. -/
  | fields (name? : Option Identifier) (items : List (Identifier × Term))
  | list (items : List Term)
  | map (entries : List (Term × Term))
deriving Repr

/-- Reads the rest of a sequence after an item: its end, or a comma and more items. -/
def afterItem {α : Type} (close : Char) (item : α)
    (more : List Token → Option (List α × List Token)) :
    List Token → Option (List α × List Token)
  | .mark c :: rest =>
    if c = close then some ([item], rest)
    else if c = ',' then (more rest).map fun p ↦ (item :: p.1, p.2)
    else none
  | _ => none

mutual

def readTerm : Nat → List Token → Option (Term × List Token)
  | limit + 1, .name id :: .mark '(' :: ts => readParentheses limit (some id) ts
  | limit + 1, .mark '(' :: ts => readParentheses limit none ts
  | limit + 1, .mark '[' :: ts => (readItems limit ']' ts).map fun p ↦ (.list p.1, p.2)
  | limit + 1, .mark '{' :: ts => (readEntries limit ts).map fun p ↦ (.map p.1, p.2)
  | _ + 1, .name id :: ts => some (.name id, ts)
  | _ + 1, .number text :: ts => some (.number text, ts)
  | _ + 1, .text s :: ts => some (.text s, ts)
  | _ + 1, .character c :: ts => some (.character c, ts)
  | _ + 1, .byte b :: ts => some (.byte b, ts)
  | _ + 1, .bytes bs :: ts => some (.bytes bs, ts)
  | _, _ => none

/-- Reads what follows an opening parenthesis. -/
def readParentheses : Nat → Option Identifier → List Token → Option (Term × List Token)
  | limit + 1, name?, .name id :: .mark ':' :: ts =>
    (readFields limit (.name id :: .mark ':' :: ts)).map fun p ↦ (.fields name? p.1, p.2)
  | limit + 1, name?, ts => (readItems limit ')' ts).map fun p ↦ (.group name? p.1, p.2)
  | 0, _, _ => none

def readItems : Nat → Char → List Token → Option (List Term × List Token)
  | limit + 1, close, ts =>
    if ts.head? = some (.mark close) then some ([], ts.tail)
    else do
      let (t, rest) ← readTerm limit ts
      afterItem close t (readItems limit close) rest
  | 0, _, _ => none

def readFields : Nat → List Token → Option (List (Identifier × Term) × List Token)
  | _ + 1, .mark ')' :: ts => some ([], ts)
  | limit + 1, .name id :: .mark ':' :: ts => do
    let (t, rest) ← readTerm limit ts
    afterItem ')' (id, t) (readFields limit) rest
  | _, _ => none

def readEntries : Nat → List Token → Option (List (Term × Term) × List Token)
  | _ + 1, .mark '}' :: ts => some ([], ts)
  | limit + 1, ts => do
    match ← readTerm limit ts with
    | (key, .mark ':' :: rest) =>
      let (value, rest) ← readTerm limit rest
      afterItem '}' (key, value) (readEntries limit) rest
    | _ => none
  | 0, _ => none

end

/-- Extensions of the grammar, each of which a document may enable. -/
structure Extensions where
  /-- Named types around one value are written as the value. -/
  unwrapNewtypes : Bool := false
  /-- A present optional value may be written as the value. -/
  implicitSome : Bool := false
  /-- The payload of a case is written without parentheses of its own. -/
  unwrapVariantNewtypes : Bool := false
  /-- Names of records have to be written. -/
  explicitStructNames : Bool := false
deriving DecidableEq, Repr

def Extensions.enable? (e : Extensions) (name : String) : Option Extensions :=
  if name = "unwrap_newtypes" then some { e with unwrapNewtypes := true }
  else if name = "implicit_some" then some { e with implicitSome := true }
  else if name = "unwrap_variant_newtypes" then some { e with unwrapVariantNewtypes := true }
  else if name = "explicit_struct_names" then some { e with explicitStructNames := true }
  else none

/-- Reads the names of an attribute and its end. -/
def readExtensions (e : Extensions) : List Token → Option (Extensions × List Token)
  | .name id :: .mark ',' :: .mark ')' :: .mark ']' :: ts
  | .name id :: .mark ')' :: .mark ']' :: ts => (e.enable? id.text).map fun e ↦ (e, ts)
  | .name id :: .mark ',' :: ts => do readExtensions (← e.enable? id.text) ts
  | _ => none

/-- The tokens in front of the names of an attribute. -/
def attributeOpening : List Token :=
  [.mark '#', .mark '!', .mark '[', .name ⟨"enable", false⟩, .mark '(']

/-- Reads the attributes at the start of a document. -/
def readAttributes : Nat → Extensions → List Token → Option (Extensions × List Token)
  | limit + 1, e, ts =>
    if attributeOpening.isPrefixOf ts then do
      let (e, rest) ← readExtensions e (ts.drop attributeOpening.length)
      readAttributes limit e rest
    else some (e, ts)
  | 0, e, ts => some (e, ts)

structure Document where
  extensions : Extensions
  term : Term
deriving Repr

/-- Reads a document; nothing may follow its term. -/
def Document.ofText? (s : String) : Option Document := do
  let ts ← tokens? s
  let (e, rest) ← readAttributes ts.length {} ts
  match ← readTerm (3 * rest.length + 3) rest with
  | (t, []) => return ⟨e, t⟩
  | _ => none

end ShaderGraph.Ron
