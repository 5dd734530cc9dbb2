import ShaderGraph.Target.Dialect

/-!
# Templates and the dialects of the targets

A template is a text with placeholders, which are names in braces. Filling replaces the placeholders
of one name after another, so a replacement that holds a placeholder is filled in its turn by the
names that follow.
-/

namespace ShaderGraph

/-- Replaces the occurrences of `pattern` from left to right; `skip` characters of the last one are
still to be passed over. -/
def replaceFrom (pattern replacement : List Char) : Nat → List Char → List Char
  | _, [] => []
  | skip + 1, _ :: cs => replaceFrom pattern replacement skip cs
  | 0, c :: cs =>
    if pattern.isPrefixOf (c :: cs) then
      replacement ++ replaceFrom pattern replacement (pattern.length - 1) cs
    else c :: replaceFrom pattern replacement 0 cs

def replaceText (text pattern replacement : String) : String :=
  String.ofList (replaceFrom pattern.toList replacement.toList 0 text.toList)

namespace Template

def placeholder (name : String) : String :=
  "\x7b" ++ name ++ "\x7d"

def fill (template : String) (args : List (String × String)) : String :=
  args.foldl (fun text a ↦ replaceText text (placeholder a.1) a.2) template

def sampler : String := placeholder "sampler"

def texture : String := placeholder "texture"

def coord : String := placeholder "coord"

def bias : String := placeholder "bias"

def matrix : String := placeholder "matrix"

def vector : String := placeholder "vector"

def left : String := placeholder "left"

def right : String := placeholder "right"

end Template

namespace Dialect

open Template

def glslTypes : TypeNames where
  scalar := "float"
  vec2 := "vec2"
  vec3 := "vec3"
  vec4 := "vec4"
  matrix4 := "mat4"
  texture2D := "sampler2D"
  texture3D := "sampler3D"
  textureCube := "samplerCube"

/-- Sampling of one texture type by the overloaded functions of desktop GLSL. -/
def glslTemplates (coordinate : ValueType) (samplerType : String)
    (compare? : Option CompareTemplate) : SampleTemplates where
  coordinate := coordinate
  samplerType := samplerType
  sample := s!"texture({sampler}, {coord})"
  sampleBias? := some s!"texture({sampler}, {coord}, {bias})"
  sampleLod? := some s!"textureLod({sampler}, {coord}, 0.0)"
  sampleCompare? := compare?

def glsl : Dialect where
  backend := .glsl
  layout := .globals "in" "out" "in"
  types := glslTypes
  splatSyntax := .constructor
  fract := "fract"
  lerp := "mix"
  rsqrt := "inversesqrt"
  atan2 := "atan"
  ddx := "dFdx"
  ddy := "dFdy"
  log10? := none
  round? := some "round"
  trunc? := some "trunc"
  transpose? := some "transpose"
  instanceId? := some "float(gl_InstanceID)"
  fragCoord := "gl_FragCoord.xy"
  frontFacing := "gl_FrontFacing"
  transform := s!"{matrix} * {vector}"
  matrixMultiply := s!"{left} * {right}"
  unrollAttribute? := none
  branchAttribute? := none
  flattenAttribute? := none
  unboundedLoops := true
  maxRenderTargets := 4
  texture2D? := some (glslTemplates .vec2 "sampler2D"
    (some ⟨"sampler2DShadow", s!"texture({sampler}, {coord})", .vec3⟩))
  texture3D? := some (glslTemplates .vec3 "sampler3D" none)
  textureCube? := some (glslTemplates .vec3 "samplerCube"
    (some ⟨"samplerCubeShadow", s!"texture({sampler}, {coord})", .vec4⟩))
  reservedPrefix := "_gl_"
  derivativeExtension? := none

/-- Sampling of one texture type by a function of GLSL ES. -/
def glslEsTemplates (coordinate : ValueType) (samplerType function : String) :
    SampleTemplates where
  coordinate := coordinate
  samplerType := samplerType
  sample := s!"{function}({sampler}, {coord})"
  sampleBias? := some s!"{function}({sampler}, {coord}, {bias})"
  sampleLod? := some s!"{function}Lod({sampler}, {coord}, 0.0)"
  sampleCompare? := none

def glslEs : Dialect where
  backend := .glslEs
  layout := .globals "attribute" "varying" "varying"
  types := glslTypes
  splatSyntax := .constructor
  fract := "fract"
  lerp := "mix"
  rsqrt := "inversesqrt"
  atan2 := "atan"
  ddx := "dFdx"
  ddy := "dFdy"
  log10? := none
  round? := none
  trunc? := none
  transpose? := none
  instanceId? := none
  fragCoord := "gl_FragCoord.xy"
  frontFacing := "gl_FrontFacing"
  transform := s!"{matrix} * {vector}"
  matrixMultiply := s!"{left} * {right}"
  unrollAttribute? := none
  branchAttribute? := none
  flattenAttribute? := none
  unboundedLoops := false
  maxRenderTargets := 1
  texture2D? := some (glslEsTemplates .vec2 "sampler2D" "texture2D")
  texture3D? := none
  textureCube? := some (glslEsTemplates .vec3 "samplerCube" "textureCube")
  reservedPrefix := "_gl_"
  derivativeExtension? := some "GL_OES_standard_derivatives"

/-- Sampling of one texture type by the methods of HLSL textures. -/
def hlslTemplates (coordinate : ValueType) (compare? : Option CompareTemplate) :
    SampleTemplates where
  coordinate := coordinate
  samplerType := "SamplerState"
  sample := s!"{texture}.Sample({sampler}, {coord})"
  sampleBias? := some s!"{texture}.SampleBias({sampler}, {coord}, {bias})"
  sampleLod? := some s!"{texture}.SampleLevel({sampler}, {coord}, 0.0)"
  sampleCompare? := compare?

def hlsl : Dialect where
  backend := .hlsl
  layout := .structs
  types := {
    scalar := "float"
    vec2 := "float2"
    vec3 := "float3"
    vec4 := "float4"
    matrix4 := "float4x4"
    texture2D := "Texture2D"
    texture3D := "Texture3D"
    textureCube := "TextureCube" }
  splatSyntax := .cast
  fract := "frac"
  lerp := "lerp"
  rsqrt := "rsqrt"
  atan2 := "atan2"
  ddx := "ddx"
  ddy := "ddy"
  log10? := some "log10"
  round? := some "round"
  trunc? := some "trunc"
  transpose? := some "transpose"
  instanceId? := some "float(i.InstanceId)"
  fragCoord := "i.Position.xy"
  frontFacing := "i.FrontFace"
  transform := s!"mul({vector}, {matrix})"
  matrixMultiply := s!"mul({left}, {right})"
  unrollAttribute? := some "[unroll]"
  branchAttribute? := some "[branch]"
  flattenAttribute? := some "[flatten]"
  unboundedLoops := true
  maxRenderTargets := 4
  texture2D? := some (hlslTemplates .vec2 (some ⟨"SamplerComparisonState",
    s!"{texture}.SampleCmpLevelZero({sampler}, {coord}.xy, {coord}.z)", .vec3⟩))
  texture3D? := some (hlslTemplates .vec3 none)
  textureCube? := some (hlslTemplates .vec3 (some ⟨"SamplerComparisonState",
    s!"{texture}.SampleCmpLevelZero({sampler}, {coord}.xyz, {coord}.w)", .vec4⟩))
  reservedPrefix := "_dx_"
  derivativeExtension? := none

end Dialect

def Backend.dialect : Backend → Dialect
  | .glsl => .glsl
  | .glslEs => .glslEs
  | .hlsl => .hlsl

end ShaderGraph
