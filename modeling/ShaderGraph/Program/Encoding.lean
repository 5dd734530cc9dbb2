import ShaderGraph.Binary.Reader
import ShaderGraph.Json.Interpretation
import ShaderGraph.Json.Printer
import ShaderGraph.Ron.Interpretation
import ShaderGraph.Ron.Printer
import ShaderGraph.Storage.Program

/-!
# Encodings of programs
-/

namespace ShaderGraph

inductive ArtifactFormat
  | ron
  | json
  | binary
deriving DecidableEq, Repr, Inhabited

namespace ArtifactFormat

/-- End of the names of files of the format. -/
def extension : ArtifactFormat → String
  | ron => "ron"
  | json => "json"
  | binary => "bin"

/-- The format with a name, given in either case. -/
def ofName? (text : String) : Option ArtifactFormat :=
  let name := asciiLower text
  if name = "ron" then some ron
  else if name = "json" then some json
  else if name = "bin" ∨ name = "bincode" then some binary
  else none

end ArtifactFormat

/-- The contents of a file. -/
inductive Encoded
  | text (s : String)
  | bytes (bs : List UInt8)
deriving DecidableEq, Repr

def Encoded.toBytes : Encoded → List UInt8
  | text s => s.toUTF8.toList
  | bytes bs => bs

namespace Artifact

def encode (a : Artifact) : ArtifactFormat → Encoded
  | .ron => .text (Ron.write true (store a))
  | .json => .text (Json.write (store a))
  | .binary => .bytes (Binary.write (store a))

/-- Reads a program back. -/
def decode? : ArtifactFormat → Encoded → Option Artifact
  | .ron, .text s => do restore? (← Ron.read? (Stored.schema Artifact) s)
  | .json, .text s => do restore? (← Json.read? (Stored.schema Artifact) s)
  | .binary, .bytes bs => do restore? (← Binary.read? (Stored.schema Artifact) bs)
  | _, _ => none

end Artifact

/-- Whether two samplers are declared alike, with biases compared as numbers. -/
def SamplerDeclaration.agrees (s t : SamplerDeclaration) : Bool :=
  s.state.agrees t.state && decide ({ s with state := t.state } = t)

/-- Whether two programs are alike, with biases compared as numbers. -/
def Artifact.agrees (a b : Artifact) : Bool :=
  a.samplers.length = b.samplers.length &&
    (a.samplers.zip b.samplers).all (fun p ↦ p.1.agrees p.2) &&
    decide ({ a with samplers := b.samplers } = b)

end ShaderGraph
