/-!
# Labels and maps

A labelled type is finite: it lists its values in declaration order and gives each its label. Text
formats write the label and binary formats the position in the list.

A map is a list of entries in the order in which they were inserted. Insertion under a key that is
present replaces the value in its place, and under any other key appends; erasing keeps the order of the
other entries.
-/

namespace ShaderGraph

/-! ## Finite types with labels -/

class Labelled (α : Type) where
  all : List α
  label : α → String

namespace Labelled

variable {α : Type} [Labelled α]

def ofLabel? (text : String) : Option α :=
  (all : List α).find? fun a ↦ label a = text

def index [BEq α] (a : α) : Nat :=
  (all : List α).idxOf a

end Labelled

/-! ## Maps in insertion order -/

structure OrderedMap (κ α : Type) where
  entries : List (κ × α)
deriving DecidableEq, Repr

namespace OrderedMap

variable {κ α : Type} [DecidableEq κ]

def empty : OrderedMap κ α := ⟨[]⟩

instance : Inhabited (OrderedMap κ α) := ⟨empty⟩

def keys (m : OrderedMap κ α) : List κ :=
  m.entries.map Prod.fst

def values (m : OrderedMap κ α) : List α :=
  m.entries.map Prod.snd

def size (m : OrderedMap κ α) : Nat :=
  m.entries.length

def get? (m : OrderedMap κ α) (k : κ) : Option α :=
  m.entries.lookup k

def contains (m : OrderedMap κ α) (k : κ) : Bool :=
  (m.get? k).isSome

/-- Replaces the value of the first entry under `k`, or appends an entry. -/
def insertEntry (k : κ) (a : α) : List (κ × α) → List (κ × α)
  | [] => [(k, a)]
  | e :: es => if e.1 = k then (k, a) :: es else e :: insertEntry k a es

def insert (m : OrderedMap κ α) (k : κ) (a : α) : OrderedMap κ α :=
  ⟨insertEntry k a m.entries⟩

def erase (m : OrderedMap κ α) (k : κ) : OrderedMap κ α :=
  ⟨m.entries.filter fun e ↦ e.1 ≠ k⟩

/-- Keeps the entries whose value satisfies `p`. -/
def filterValues (m : OrderedMap κ α) (p : α → Bool) : OrderedMap κ α :=
  ⟨m.entries.filter fun e ↦ p e.2⟩

/-- Inserts the entries one after another. -/
def ofList (es : List (κ × α)) : OrderedMap κ α :=
  es.foldl (fun m e ↦ m.insert e.1 e.2) empty

end OrderedMap

end ShaderGraph
