import ShaderGraph.Numeric.Binary32

/-!
# Data

A datum is a value in the form in which text and binary formats write it. The formats know nothing
of the types of this library; a schema tells a reader which data to expect.
-/

namespace ShaderGraph

inductive Datum
  | unit
  | bool (b : Bool)
  | byte (x : UInt8)
  | word (x : UInt32)
  | integer (x : Int32)
  | float (x : Binary32)
  | text (s : String)
  /-- An optional value that is missing. -/
  | absent
  /-- An optional value that is there. -/
  | present (d : Datum)
  | list (items : List Datum)
  | map (entries : List (Datum × Datum))
  /-- A fixed number of items. -/
  | tuple (items : List Datum)
  /-- A named type around one value. -/
  | wrapper (name : String) (d : Datum)
  | record (name : String) (fields : List (String × Datum))
  /-- One of several cases, with its position among them. The payload is a unit, a record without a
  name, or any other datum. -/
  | variant (index : Nat) (name : String) (payload : Datum)
deriving Repr, Inhabited

inductive Schema
  | unit
  | bool
  | byte
  | word
  | integer
  | float
  | text
  | optional (inner : Schema)
  | list (item : Schema)
  | map (key value : Schema)
  | tuple (items : List Schema)
  | wrapper (name : String) (inner : Schema)
  /-- Fields in their order, and the data that stand for missing ones. -/
  | record (name : String) (fields : List (String × Schema)) (defaults : List (String × Datum))
  | choice (cases : List (String × Schema))
deriving Repr, Inhabited

namespace Schema

def isOptional : Schema → Bool
  | optional _ => true
  | _ => false

/-- What a missing field stands for: its default, or an absent value of an optional field. -/
def missing? (defaults : List (String × Datum)) (name : String) (field : Schema) : Option Datum :=
  (defaults.lookup name).or (if field.isOptional then some .absent else none)

end Schema

end ShaderGraph
