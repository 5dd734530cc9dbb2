import ShaderGraph.Json.Reader
import ShaderGraph.Storage.Datum

/-!
# Interpretation of JSON values

A value is read as the datum that a schema expects. Members come in any order and are ignored if the
record has no field of their name. Keys of maps are strings. How the numbers of floats are rounded is a
parameter.
-/

namespace ShaderGraph.Json

/-- The integer of a number that is written without a point and an exponent. -/
def wholeNumber? (n : Numeral) : Option Int :=
  if n.isWhole && !(n.value.negative && n.value.coefficient = 0) then
    some (signedValue n.value.negative n.value.coefficient)
  else none

/-- The integer of a number if it lies in a range. -/
def integerIn? (least greatest : Int) (n : Numeral) : Option Int := do
  let k ← wholeNumber? n
  if least ≤ k && k ≤ greatest then some k else none

/-- A number is rounded to 64 bits first, and must fit there. -/
def floatOf? (n : Numeral) : Option Binary32 :=
  if n.value.round .binary64 = BinaryFormat.binary64.infinity then none
  else some (.ofDecimalViaBinary64 n.value)

/-- The members with a name; two of them are too many. -/
def field? (name : String) (members : List (String × Value)) : Option (Option Value) :=
  match members.filter fun m ↦ m.1 = name with
  | [] => some none
  | [m] => some (some m.2)
  | _ => none

mutual

def interpretWith (float? : Numeral → Option Binary32) : Schema → Value → Option Datum
  | .unit, .null => some .unit
  | .bool, .bool b => some (.bool b)
  | .byte, .number n => (integerIn? 0 0xff n).map fun k ↦ .byte (UInt8.ofNat k.toNat)
  | .word, .number n => (integerIn? 0 0xffffffff n).map fun k ↦ .word (UInt32.ofNat k.toNat)
  | .integer, .number n =>
    (integerIn? (-0x80000000) 0x7fffffff n).map fun k ↦ .integer (Int32.ofInt k)
  | .float, .number n => (float? n).map .float
  | .text, .string s => some (.text s)
  | .optional _, .null => some .absent
  | .optional inner, v => (interpretWith float? inner v).map .present
  | .list item, .array vs => (vs.mapM (interpretWith float? item)).map .list
  | .map key value, .object members =>
    (members.mapM fun (m : String × Value) ↦ do
      return (← interpretWith float? key (.string m.1), ← interpretWith float? value m.2)).map .map
  | .tuple schemas, .array vs => (interpretItems float? schemas vs).map .tuple
  | .wrapper name inner, v => (interpretWith float? inner v).map (.wrapper name)
  | .record name schemas defaults, .object members =>
    (interpretFields float? defaults schemas members).map (.record name)
  | .choice cases, .string name => interpretCase float? cases 0 name .null
  | .choice cases, .object [(name, v)] => interpretCase float? cases 0 name v
  | _, _ => none
termination_by structural schema => schema

def interpretItems (float? : Numeral → Option Binary32) :
    List Schema → List Value → Option (List Datum)
  | [], [] => some []
  | schema :: schemas, v :: vs => do
    return (← interpretWith float? schema v) :: (← interpretItems float? schemas vs)
  | _, _ => none
termination_by structural schemas => schemas

def interpretFields (float? : Numeral → Option Binary32) (defaults : List (String × Datum)) :
    List (String × Schema) → List (String × Value) → Option (List (String × Datum))
  | [], _ => some []
  | (name, schema) :: schemas, members => do
    let d ←
      match ← field? name members with
      | some v => interpretWith float? schema v
      | none => schema.missing? defaults name
    return (name, d) :: (← interpretFields float? defaults schemas members)
termination_by structural schemas => schemas

def interpretCase (float? : Numeral → Option Binary32) :
    List (String × Schema) → Nat → String → Value → Option Datum
  | [], _, _, _ => none
  | (name, payload) :: cases, index, wanted, v =>
    if name ≠ wanted then interpretCase float? cases (index + 1) wanted v
    else (interpretWith float? payload v).map (.variant index name)
termination_by structural cases => cases

end

/-- Numbers of floats are rounded to 64 bits first. -/
def interpret : Schema → Value → Option Datum :=
  interpretWith floatOf?

/-- Reads a datum of a schema. -/
def read? (schema : Schema) (s : String) : Option Datum := do
  interpret schema (← Value.ofText? s)

end ShaderGraph.Json
