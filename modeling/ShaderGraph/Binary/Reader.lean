import ShaderGraph.Binary.Writer

/-!
# Reading the binary form
-/

namespace ShaderGraph.Binary

abbrev Reader (α : Type) := List UInt8 → Option (α × List UInt8)

/-- The number that bytes denote, the lowest one first. -/
def ofLittleEndian : List UInt8 → Nat
  | [] => 0
  | b :: bs => b.toNat + 256 * ofLittleEndian bs

def readBytes (count : Nat) : Reader (List UInt8) := fun bs ↦
  let taken := bs.take count
  if taken.length = count then some (taken, bs.drop count) else none

def readNumber (width : Nat) : Reader Nat := fun bs ↦ do
  let (taken, rest) ← readBytes width bs
  return (ofLittleEndian taken, rest)

/-- Reads a flag, which is zero or one. -/
def readFlag : Reader Bool
  | b :: bs => if b = 0 then some (false, bs) else if b = 1 then some (true, bs) else none
  | [] => none

def readText : Reader String := fun bs ↦ do
  let (count, rest) ← readNumber 8 bs
  let (taken, rest) ← readBytes count rest
  return (← String.fromUTF8? ⟨taken.toArray⟩, rest)

def readMany {α : Type} (item : Reader α) : Nat → Reader (List α)
  | 0, bs => some ([], bs)
  | count + 1, bs => do
    let (a, rest) ← item bs
    let (more, rest) ← readMany item count rest
    return (a :: more, rest)

mutual

def readDatum : Schema → Reader Datum
  | .unit, bs => some (.unit, bs)
  | .bool, bs => (readFlag bs).map fun p ↦ (.bool p.1, p.2)
  | .byte, bs => (readNumber 1 bs).map fun p ↦ (.byte (UInt8.ofNat p.1), p.2)
  | .word, bs => (readNumber 4 bs).map fun p ↦ (.word (UInt32.ofNat p.1), p.2)
  | .integer, bs => (readNumber 4 bs).map fun p ↦ (.integer (UInt32.ofNat p.1).toInt32, p.2)
  | .float, bs => (readNumber 4 bs).map fun p ↦ (.float ⟨UInt32.ofNat p.1⟩, p.2)
  | .text, bs => (readText bs).map fun p ↦ (.text p.1, p.2)
  | .optional inner, bs => do
    let (isPresent, rest) ← readFlag bs
    if isPresent then (readDatum inner rest).map fun p ↦ (.present p.1, p.2)
    else some (.absent, rest)
  | .list item, bs => do
    let (count, rest) ← readNumber 8 bs
    (readMany (readDatum item) count rest).map fun p ↦ (.list p.1, p.2)
  | .map key value, bs => do
    let (count, rest) ← readNumber 8 bs
    let entry : Reader (Datum × Datum) := fun bs ↦ do
      let (k, rest) ← readDatum key bs
      let (v, rest) ← readDatum value rest
      return ((k, v), rest)
    (readMany entry count rest).map fun p ↦ (.map p.1, p.2)
  | .tuple schemas, bs => (readItems schemas bs).map fun p ↦ (.tuple p.1, p.2)
  | .wrapper name inner, bs => (readDatum inner bs).map fun p ↦ (.wrapper name p.1, p.2)
  | .record name schemas _, bs => (readFields schemas bs).map fun p ↦ (.record name p.1, p.2)
  | .choice cases, bs => do
    let (index, rest) ← readNumber 4 bs
    readCase cases index index rest
termination_by structural schema => schema

def readItems : List Schema → Reader (List Datum)
  | [], bs => some ([], bs)
  | schema :: schemas, bs => do
    let (d, rest) ← readDatum schema bs
    let (ds, rest) ← readItems schemas rest
    return (d :: ds, rest)
termination_by structural schemas => schemas

def readFields : List (String × Schema) → Reader (List (String × Datum))
  | [], bs => some ([], bs)
  | (name, schema) :: schemas, bs => do
    let (d, rest) ← readDatum schema bs
    let (ds, rest) ← readFields schemas rest
    return ((name, d) :: ds, rest)
termination_by structural schemas => schemas

/-- Reads the payload of the case that comes after `skip` others. -/
def readCase : List (String × Schema) → Nat → Nat → Reader Datum
  | [], _, _, _ => none
  | (name, payload) :: _, index, 0, bs =>
    (readDatum payload bs).map fun p ↦ (.variant index name p.1, p.2)
  | _ :: cases, index, skip + 1, bs => readCase cases index skip bs
termination_by structural cases => cases

end

/-- Reads a datum that all of the bytes make up. -/
def read? (schema : Schema) (bs : List UInt8) : Option Datum := do
  match ← readDatum schema bs with
  | (d, []) => some d
  | _ => none

end ShaderGraph.Binary
