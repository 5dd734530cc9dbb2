import ShaderGraph.Data.Tables
import ShaderGraph.Text.Ascii

/-!
# Target languages
-/

namespace ShaderGraph

/-- Desktop GLSL 3.30 and later, GLSL ES 1.00, and HLSL shader model 4 and later. -/
inductive Backend
  | glsl
  | glslEs
  | hlsl
deriving DecidableEq, Repr, Inhabited

namespace Backend

instance : Labelled Backend where
  all := [glsl, glslEs, hlsl]
  label
    | glsl => "Glsl"
    | glslEs => "GlslEs"
    | hlsl => "Hlsl"

/-- Name on the command line and in messages. -/
def name : Backend → String
  | glsl => "glsl"
  | glslEs => "glsl-es"
  | hlsl => "hlsl"

/-- The target with a name, given in either case. -/
def ofName? (text : String) : Option Backend :=
  (Labelled.all : List Backend).find? fun b ↦ equalIgnoringCase b.name text

end Backend

end ShaderGraph
