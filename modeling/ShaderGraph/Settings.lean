import ShaderGraph.Target.Backend

/-!
# Compiler settings
-/

namespace ShaderGraph

/-- Default precision of floats in GLSL ES. -/
inductive Precision
  | low
  | medium
  | high
deriving DecidableEq, Repr, Inhabited

namespace Precision

instance : Labelled Precision where
  all := [low, medium, high]
  label
    | low => "Low"
    | medium => "Medium"
    | high => "High"

def qualifier : Precision → String
  | low => "lowp"
  | medium => "mediump"
  | high => "highp"

end Precision

structure Settings where
  backend : Backend := .glsl
  /-- Version that desktop GLSL sources name. -/
  glslVersion : UInt32 := 330
  precision : Precision := .high
  /-- Forces or suppresses unroll attributes; without it they are written in the pixel stage. -/
  unrollLoops? : Option Bool := none
  /-- Whether sources have section titles. -/
  emitComments : Bool := true
deriving DecidableEq, Repr, Inhabited

end ShaderGraph
