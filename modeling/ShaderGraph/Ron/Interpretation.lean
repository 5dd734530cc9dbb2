import ShaderGraph.Ron.Number
import ShaderGraph.Ron.Term
import ShaderGraph.Storage.Datum

/-!
# Interpretation of terms

A term is read as the datum that a schema expects. Fields come in any order, none of them twice, and
a field that the record does not have is skipped if its value makes sense by itself.
-/

namespace ShaderGraph.Ron

/-- How many terms may lie inside of one another. -/
def nestingLimit : Nat := 128

/-- Names that stand for values of their own and take no parentheses. -/
def Identifier.isValue (id : Identifier) : Bool :=
  !id.isRaw && (id.text ∈ ["true", "false", "None"] || isFloatName id.text)

def Identifier.isSome (id : Identifier) : Bool :=
  !id.isRaw && id.text = "Some"

/-- Whether a name may stand in front of items in parentheses. -/
def fitsItems (name? : Option Identifier) (count : Nat) : Bool :=
  name?.all fun id ↦ !id.isValue && (!id.isSome || count = 1)

/-- Whether a name may stand in front of fields. -/
def fitsFields (name? : Option Identifier) : Bool :=
  name?.all fun id ↦ !id.isValue && !id.isSome

mutual

/-- Whether a term makes sense without a schema, if at most `limit` more terms may lie inside of one
another. -/
def isMeaningful : Nat → Term → Bool
  | _, .number text => isNumber text
  | _, .name id => !id.isSome
  | limit, .group name? items => fitsItems name? items.length && areMeaningful limit items
  | limit, .fields name? items => fitsFields name? && areMeaningfulFields limit items
  | limit, .list items => areMeaningful limit items
  | limit, .map entries => areMeaningfulEntries limit entries
  | _, _ => true
termination_by structural _ t => t

def areMeaningful : Nat → List Term → Bool
  | _, [] => true
  | 0, _ :: _ => false
  | limit + 1, t :: ts => isMeaningful limit t && areMeaningful (limit + 1) ts
termination_by structural _ ts => ts

def areMeaningfulFields : Nat → List (Identifier × Term) → Bool
  | _, [] => true
  | 0, _ :: _ => false
  | limit + 1, (_, t) :: ts => isMeaningful limit t && areMeaningfulFields (limit + 1) ts
termination_by structural _ ts => ts

def areMeaningfulEntries : Nat → List (Term × Term) → Bool
  | _, [] => true
  | 0, _ :: _ => false
  | limit + 1, (k, t) :: ts =>
    isMeaningful limit k && isMeaningful limit t && areMeaningfulEntries (limit + 1) ts
termination_by structural _ ts => ts

end

/-- Whether no name occurs twice. -/
def areDistinct : List String → Bool
  | [] => true
  | name :: names => name ∉ names && areDistinct names

/-- Whether fields can be those of a record with the given field names: none of them twice, and all
others meaningful. -/
def areFields (known : List String) (limit : Nat) (items : List (Identifier × Term)) : Bool :=
  areDistinct ((items.map (·.1.text)).filter (· ∈ known)) &&
    areMeaningfulFields limit (items.filter fun item ↦ item.1.text ∉ known)

def fieldTerm? (name : String) (items : List (Identifier × Term)) : Option Term :=
  (items.find? fun item ↦ item.1.text = name).map (·.2)

/-- Whether the name in front of a value is that of its type; it may be left out unless names are
explicit. -/
def namesType (e : Extensions) (name : String) : Option Identifier → Bool
  | some id => id.text = name
  | none => !e.explicitStructNames

def isKeyword (word : String) (id : Identifier) : Bool :=
  !id.isRaw && id.text = word

/-- The named fields of a term in parentheses. -/
def termFields? : Term → Option (Option Identifier × List (Identifier × Term))
  | .fields name? items => some (name?, items)
  | .group name? [] => some (name?, [])
  | _ => none

mutual

def interpret (e : Extensions) : Schema → Nat → Term → Option Datum
  | .bool, _, .name id =>
    if isKeyword "true" id then some (.bool true)
    else if isKeyword "false" id then some (.bool false)
    else none
  | .byte, _, .number text => (integerOf? .byte text).map fun n ↦ .byte (UInt8.ofNat n.toNat)
  | .byte, _, .byte b => some (.byte b)
  | .word, _, .number text => (integerOf? .word text).map fun n ↦ .word (UInt32.ofNat n.toNat)
  | .integer, _, .number text => (integerOf? .integer text).map fun n ↦ .integer (Int32.ofInt n)
  | .float, _, .number text => (floatOf? text).map .float
  | .float, _, .name id =>
    if id.isRaw then none else (specialFloat? ["f32"] false id.text).map .float
  | .text, _, .text s => some (.text s)
  | .optional inner, limit, .name id =>
    if isKeyword "None" id then some .absent
    else if e.implicitSome then (interpret e inner (limit - 1) (.name id)).map .present
    else none
  | .optional inner, limit, .group (some id) [t] =>
    if isKeyword "Some" id then (interpret e inner (limit - 1) t).map .present
    else if e.implicitSome then
      (interpret e inner (limit - 1) (.group (some id) [t])).map .present
    else none
  | .optional inner, limit, t =>
    if e.implicitSome then (interpret e inner (limit - 1) t).map .present else none
  | .list item, limit, .list ts => (ts.mapM (interpret e item (limit - 1))).map .list
  | .map key value, limit, .map ts =>
    (ts.mapM fun (t : Term × Term) ↦ do
      return (← interpret e key (limit - 1) t.1, ← interpret e value (limit - 1) t.2)).map .map
  | .tuple schemas, limit, .group none ts => (interpretItems e schemas (limit - 1) ts).map .tuple
  | .wrapper name inner, limit, t =>
    if e.unwrapNewtypes then (interpret e inner (limit - 1) t).map (.wrapper name)
    else
      match t with
      | .group name? [t] =>
        if namesType e name name? then (interpret e inner (limit - 1) t).map (.wrapper name)
        else none
      | _ => none
  | .record name schemas defaults, limit, t =>
    match termFields? t with
    | some (name?, items) =>
      if namesType e name name? && areFields (schemas.map Prod.fst) limit items then
        (interpretFields e defaults schemas (limit - 1) items).map (.record name)
      else none
    | none => none
  | .choice cases, limit, .name id => interpretCase e cases 0 id.text limit none
  | .choice cases, limit, .group (some id) ts =>
    interpretCase e cases 0 id.text limit (some (.group none ts))
  | .choice cases, limit, .fields (some id) items =>
    interpretCase e cases 0 id.text limit (some (.fields none items))
  | _, _, _ => none
termination_by structural schema => schema

def interpretItems (e : Extensions) : List Schema → Nat → List Term → Option (List Datum)
  | [], _, [] => some []
  | schema :: schemas, limit, t :: ts => do
    return (← interpret e schema limit t) :: (← interpretItems e schemas limit ts)
  | _, _, _ => none
termination_by structural schemas => schemas

def interpretFields (e : Extensions) (defaults : List (String × Datum)) :
    List (String × Schema) → Nat → List (Identifier × Term) → Option (List (String × Datum))
  | [], _, _ => some []
  | (name, schema) :: schemas, limit, items => do
    let d ←
      match fieldTerm? name items with
      | some t => interpret e schema limit t
      | none => schema.missing? defaults name
    return (name, d) :: (← interpretFields e defaults schemas limit items)
termination_by structural schemas => schemas

/-- Reads the case with a name. What stands in parentheses after the name are the fields of its
payload, or one value. -/
def interpretCase (e : Extensions) :
    List (String × Schema) → Nat → String → Nat → Option Term → Option Datum
  | [], _, _, _, _ => none
  | (name, payload) :: cases, index, wanted, limit, t? =>
    if name ≠ wanted then interpretCase e cases (index + 1) wanted limit t?
    else
      let single := interpret e payload (limit - 1)
      Datum.variant index name <$>
        match payload, t? with
        | .unit, none => some .unit
        | .record name schemas defaults, some t =>
          match termFields? t with
          | some (_, items) =>
            if areFields (schemas.map Prod.fst) limit items then
              (interpretFields e defaults schemas (limit - 1) items).map (.record name)
            else none
          | none => none
        | .tuple schemas, some (.group _ ts) =>
          if e.unwrapVariantNewtypes then
            (interpretItems e schemas (limit - 2) ts).map .tuple
          else
            match ts with
            | [.group none ts] => (interpretItems e schemas (limit - 2) ts).map .tuple
            | _ => none
        | .unit, some _ => none
        | _, some (.group _ [t]) => single t
        | _, _ => none
termination_by structural cases => cases

end

/-- Reads a datum of a schema. -/
def read? (schema : Schema) (s : String) : Option Datum := do
  let d ← Document.ofText? s
  interpret d.extensions schema nestingLimit d.term

end ShaderGraph.Ron
