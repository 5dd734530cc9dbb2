import ShaderGraph.Data.Tables
import ShaderGraph.Storage.Datum

/-!
# Stored types

A stored type has a schema, and its values are converted to data and back. Records are described
field by field, and choices by the list of their cases.
-/

namespace ShaderGraph

class Stored (α : Type) where
  schema : Schema
  store : α → Datum
  restore? : Datum → Option α

export Stored (store restore?)

section Basic

variable {α β : Type} [Stored α] [Stored β]

instance : Stored Bool where
  schema := .bool
  store := .bool
  restore?
    | .bool b => some b
    | _ => none

instance : Stored UInt8 where
  schema := .byte
  store := .byte
  restore?
    | .byte x => some x
    | _ => none

instance : Stored UInt32 where
  schema := .word
  store := .word
  restore?
    | .word x => some x
    | _ => none

instance : Stored Int32 where
  schema := .integer
  store := .integer
  restore?
    | .integer x => some x
    | _ => none

instance : Stored Binary32 where
  schema := .float
  store := .float
  restore?
    | .float x => some x
    | _ => none

instance : Stored String where
  schema := .text
  store := .text
  restore?
    | .text s => some s
    | _ => none

instance : Stored (Option α) where
  schema := .optional (Stored.schema α)
  store
    | none => .absent
    | some a => .present (store a)
  restore?
    | .absent => some none
    | .present d => (restore? d).map some
    | _ => none

instance : Stored (List α) where
  schema := .list (Stored.schema α)
  store as := .list (as.map store)
  restore?
    | .list ds => ds.mapM restore?
    | _ => none

instance {n : Nat} : Stored (Vector α n) where
  schema := .tuple (List.replicate n (Stored.schema α))
  store as := .tuple (as.toList.map store)
  restore?
    | .tuple ds => do
      let as ← ds.mapM (restore? (α := α))
      if h : as.toArray.size = n then some ⟨as.toArray, h⟩ else none
    | _ => none

/-- A function of two values on a vector of them. -/
def onPair (f : α → α → β) (v : Vector α 2) : β :=
  f v[0] v[1]

def pair (x y : α) : Vector α 2 :=
  #v[x, y]

/-- A function of three values on a vector of them. -/
def onTriple (f : α → α → α → β) (v : Vector α 3) : β :=
  f v[0] v[1] v[2]

def triple (x y z : α) : Vector α 3 :=
  #v[x, y, z]

/-- A function of four values on a vector of them. -/
def onQuadruple (f : α → α → α → α → β) (v : Vector α 4) : β :=
  f v[0] v[1] v[2] v[3]

def quadruple (x y z w : α) : Vector α 4 :=
  #v[x, y, z, w]

def restoreEntry? (e : Datum × Datum) : Option (α × β) := do
  return (← restore? e.1, ← restore? e.2)

/-- Of the entries under one key the last one counts, in the place of the first. -/
instance [DecidableEq α] : Stored (OrderedMap α β) where
  schema := .map (Stored.schema α) (Stored.schema β)
  store m := .map (m.entries.map fun e ↦ (store e.1, store e.2))
  restore?
    | .map es => (es.mapM restoreEntry?).map OrderedMap.ofList
    | _ => none

/-- A labelled value is a case without a payload. -/
instance [Labelled α] [BEq α] : Stored α where
  schema := .choice ((Labelled.all : List α).map fun a ↦ (Labelled.label a, .unit))
  store a := .variant (Labelled.index a) (Labelled.label a) .unit
  restore?
    | .variant _ name .unit => Labelled.ofLabel? name
    | _ => none

end Basic

/-- The fields of a record of type `σ`, from which a value of type `α` is built. -/
structure RecordFields (σ α : Type) where
  fields : List (String × Schema)
  store : σ → List (String × Datum)
  /-- Takes the data of the fields off a list. -/
  restore? : List (String × Datum) → Option (α × List (String × Datum))

namespace RecordFields

variable {σ α β : Type}

/-- No fields yet. -/
def build (make : α) : RecordFields σ α where
  fields := []
  store _ := []
  restore? ds := some (make, ds)

/-- Adds a field. -/
def field [Stored β] (r : RecordFields σ (β → α)) (name : String) (get : σ → β) :
    RecordFields σ α where
  fields := r.fields ++ [(name, Stored.schema β)]
  store s := r.store s ++ [(name, Stored.store (get s))]
  restore? ds := do
    match ← r.restore? ds with
    | (make, (_, d) :: rest) => return (make (← Stored.restore? d), rest)
    | (_, []) => none

/-- A record whose missing fields take the values that they have in `standard`. -/
def schemaWithDefaults (r : RecordFields σ α) (name : String) (standard : σ) : Schema :=
  .record name r.fields (r.store standard)

def schema (r : RecordFields σ α) (name : String) : Schema :=
  .record name r.fields []

def storeRecord (r : RecordFields σ α) (name : String) (s : σ) : Datum :=
  .record name (r.store s)

def restoreRecord? (r : RecordFields σ α) : Datum → Option α
  | .record _ ds => do
    match ← r.restore? ds with
    | (a, []) => some a
    | _ => none
  | _ => none

end RecordFields

/-- A type stored as a record with a name. -/
abbrev storedRecord {α : Type} (name : String) (r : RecordFields α α) : Stored α where
  schema := r.schema name
  store := r.storeRecord name
  restore? := r.restoreRecord?

/-- A type stored as a named type around one value. -/
abbrev storedWrapper {α β : Type} [Stored β] (name : String) (get : α → β) (make : β → α) :
    Stored α where
  schema := .wrapper name (Stored.schema β)
  store a := .wrapper name (store (get a))
  restore?
    | .wrapper _ d => (restore? d).map make
    | _ => none

/-- A case of a choice: its name, the schema of its payload and what the payload stands for. -/
structure Case (α : Type) where
  name : String
  payload : Schema
  restore? : Datum → Option α

namespace Case

variable {α β σ : Type}

/-- A case without a payload. -/
def constant (name : String) (a : α) : Case α where
  name := name
  payload := .unit
  restore?
    | .unit => some a
    | _ => none

/-- A case with one value. -/
def single [Stored β] (name : String) (make : β → α) : Case α where
  name := name
  payload := Stored.schema β
  restore? d := (Stored.restore? d).map make

/-- A case with fields. -/
def ofFields (name : String) (r : RecordFields σ α) : Case α where
  name := name
  payload := r.schema ""
  restore? := r.restoreRecord?

/-- The payload of a case with fields. -/
def fieldsPayload (r : RecordFields σ α) (s : σ) : Datum :=
  r.storeRecord "" s

def schemaOf (cases : List (Case α)) : Schema :=
  .choice (cases.map fun c ↦ (c.name, c.payload))

/-- The variant of the case with a name. -/
def store (cases : List (Case α)) (name : String) (payload : Datum) : Datum :=
  .variant (cases.findIdx fun c ↦ c.name = name) name payload

def restoreOf? (cases : List (Case α)) : Datum → Option α
  | .variant _ name payload => do
    let c ← cases.find? fun c ↦ c.name = name
    c.restore? payload
  | _ => none

end Case

end ShaderGraph
