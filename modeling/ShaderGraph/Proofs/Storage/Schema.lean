import ShaderGraph.Proofs.Ron.Token
import ShaderGraph.Storage.Datum

/-!
# Data that fit a schema

A datum fits a schema if it has the form that the schema describes, the names in it are words, and a
format can hold the rest of it. Such data are written in that format and read back without loss.
-/

namespace ShaderGraph

/-- What a format can hold. -/
structure Limits where
  float : Binary32 → Prop
  /-- Sizes of texts, lists and maps. -/
  size : Nat → Prop
  /-- Schemas of values that are told from a missing one. -/
  optional : Schema → Prop
  /-- Schemas of the keys of maps. -/
  key : Schema → Prop

/-- A document can hold every float that is finite, and all else. -/
def Limits.document : Limits where
  float x := x.isFinite = true
  size _ := True
  optional _ := True
  key _ := True

/-- Whether the value stands in parentheses of its own after the name of a case: it is neither a unit
nor a record. -/
def Schema.isSingle : Schema → Bool
  | .unit | .record .. => false
  | _ => true

def Datum.isSingle : Datum → Bool
  | .unit | .record .. => false
  | _ => true

namespace Schema

/-- The first case with a name stands at a position, which takes no more than four bytes, and has a
payload. -/
structure HasCase (cases : List (String × Schema)) (index : Nat) (name : String)
    (payload : Schema) : Prop where
  position : (cases.findIdx fun c ↦ c.1 = name) = index
  narrow : cases.length ≤ 2 ^ 32
  found : (cases.find? fun c ↦ c.1 = name) = some (name, payload)
  word : Ron.isWord name = true

/-- Names that the fields of one record can have. -/
structure AreNames (names : List String) : Prop where
  distinct : names.Nodup
  words : ∀ name ∈ names, Ron.isWord name = true

instance (names : List String) : Decidable (AreNames names) :=
  decidable_of_iff (names.Nodup ∧ ∀ name ∈ names, Ron.isWord name = true)
    ⟨fun h ↦ ⟨h.1, h.2⟩, fun h ↦ ⟨h.distinct, h.words⟩⟩

theorem AreNames.word_of_mem {α : Type} {fields : List (String × α)}
    (h : AreNames (fields.map Prod.fst)) {f : String × α} (hf : f ∈ fields) :
    Ron.isWord f.1 = true :=
  h.words f.1 (List.mem_map_of_mem hf)

inductive Admits (limits : Limits) : Schema → Datum → Prop
  | bool (b : Bool) : Admits limits .bool (.bool b)
  | byte (x : UInt8) : Admits limits .byte (.byte x)
  | word (x : UInt32) : Admits limits .word (.word x)
  | integer (x : Int32) : Admits limits .integer (.integer x)
  | float {x : Binary32} (hx : limits.float x) : Admits limits .float (.float x)
  | text {s : String} (hsize : limits.size s.utf8ByteSize) : Admits limits .text (.text s)
  | absent (inner : Schema) : Admits limits (.optional inner) .absent
  | present {inner : Schema} {d : Datum} (hinner : limits.optional inner)
      (h : Admits limits inner d) : Admits limits (.optional inner) (.present d)
  | list {item : Schema} {items : List Datum} (hsize : limits.size items.length)
      (h : ∀ d ∈ items, Admits limits item d) : Admits limits (.list item) (.list items)
  | map {key value : Schema} {entries : List (Datum × Datum)} (hkey : limits.key key)
      (hsize : limits.size entries.length) (hkeys : ∀ e ∈ entries, Admits limits key e.1)
      (hvalues : ∀ e ∈ entries, Admits limits value e.2) :
      Admits limits (.map key value) (.map entries)
  | tuple {items : List (Schema × Datum)} (h : ∀ p ∈ items, Admits limits p.1 p.2) :
      Admits limits (.tuple (items.map Prod.fst)) (.tuple (items.map Prod.snd))
  | wrapper {name : String} {inner : Schema} {d : Datum} (hname : Ron.isWord name = true)
      (h : Admits limits inner d) : Admits limits (.wrapper name inner) (.wrapper name d)
  | record {name : String} {fields : List (String × Schema × Datum)}
      {defaults : List (String × Datum)} (hname : Ron.isWord name = true)
      (hnames : AreNames (fields.map Prod.fst)) (h : ∀ f ∈ fields, Admits limits f.2.1 f.2.2) :
      Admits limits (.record name (fields.map fun f ↦ (f.1, f.2.1)) defaults)
        (.record name (fields.map fun f ↦ (f.1, f.2.2)))
  /-- A case without a payload. -/
  | constant {cases : List (String × Schema)} {index : Nat} {name : String}
      (hcase : HasCase cases index name .unit) :
      Admits limits (.choice cases) (.variant index name .unit)
  /-- A case with fields; the name of their record does not matter. -/
  | fields {cases : List (String × Schema)} {index : Nat} {name inner : String}
      {fields : List (String × Schema × Datum)} {defaults : List (String × Datum)}
      (hcase : HasCase cases index name
        (.record inner (fields.map fun f ↦ (f.1, f.2.1)) defaults))
      (hnames : AreNames (fields.map Prod.fst)) (h : ∀ f ∈ fields, Admits limits f.2.1 f.2.2) :
      Admits limits (.choice cases)
        (.variant index name (.record inner (fields.map fun f ↦ (f.1, f.2.2))))
  /-- A case with one value. -/
  | single {cases : List (String × Schema)} {index : Nat} {name : String} {inner : Schema}
      {d : Datum} (hcase : HasCase cases index name inner) (hsingle : inner.isSingle = true)
      (h : Admits limits inner d) : Admits limits (.choice cases) (.variant index name d)

theorem Admits.isSingle {limits : Limits} {schema : Schema} {d : Datum}
    (h : schema.Admits limits d) : d.isSingle = schema.isSingle := by
  cases h <;> rfl

end Schema

end ShaderGraph
