import ShaderGraph.Storage.Datum

/-!
# Binary form of data

Numbers have a fixed width and start with their lowest byte. Lengths take eight bytes and positions
of cases four; a flag of one byte tells whether an optional value is there. Nothing else is written,
so a schema is needed to read the bytes.
-/

namespace ShaderGraph.Binary

/-- The lowest `width` bytes of a number, the lowest one first. -/
def littleEndian : Nat → Nat → List UInt8
  | 0, _ => []
  | width + 1, n => UInt8.ofNat (n % 256) :: littleEndian width (n / 256)

def length (n : Nat) : List UInt8 :=
  littleEndian 8 n

def text (s : String) : List UInt8 :=
  let bytes := s.toUTF8.toList
  length bytes.length ++ bytes

mutual

def write : Datum → List UInt8
  | .unit => []
  | .bool b => [if b then 1 else 0]
  | .byte x => [x]
  | .word x => littleEndian 4 x.toNat
  | .integer x => littleEndian 4 x.toUInt32.toNat
  | .float x => littleEndian 4 x.bits.toNat
  | .text s => text s
  | .absent => [0]
  | .present d => 1 :: write d
  | .list items => length items.length ++ writeItems items
  | .map entries => length entries.length ++ writeEntries entries
  | .tuple items => writeItems items
  | .wrapper _ d => write d
  | .record _ fields => writeFields fields
  | .variant index _ payload => littleEndian 4 index ++ write payload
termination_by structural d => d

def writeItems : List Datum → List UInt8
  | [] => []
  | d :: ds => write d ++ writeItems ds
termination_by structural ds => ds

def writeFields : List (String × Datum) → List UInt8
  | [] => []
  | (_, d) :: fields => write d ++ writeFields fields
termination_by structural fields => fields

def writeEntries : List (Datum × Datum) → List UInt8
  | [] => []
  | (key, d) :: entries => write key ++ write d ++ writeEntries entries
termination_by structural entries => entries

end

end ShaderGraph.Binary
