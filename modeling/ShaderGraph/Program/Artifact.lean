import ShaderGraph.Data.Tables
import ShaderGraph.Settings
import ShaderGraph.Source.Stage

/-!
# Compiled programs

The result of a compilation: the sources of both stages and what a renderer needs to bind them.
-/

namespace ShaderGraph

/-- A uniform or texture parameter with the stages that read it. -/
structure UniformDeclaration where
  name : String
  type : ValueType
  /-- Length of an array. -/
  length? : Option UInt32
  stages : List ShaderStage
deriving DecidableEq, Repr

/-- A sampler of a texture with the stages that sample through it. -/
structure SamplerDeclaration where
  name : String
  texture : String
  textureType : ValueType
  state : SamplerState
  stages : List ShaderStage
deriving DecidableEq, Repr

/-- Features of the target that a program relies on. -/
structure Requirements where
  derivatives : Bool := false
  transpose : Bool := false
  frontFace : Bool := false
  fragmentPosition : Bool := false
  instanceId : Bool := false
  targetSize : Bool := false
deriving DecidableEq, Repr, Inhabited

structure Artifact where
  backend : Backend
  vertexSource : String
  pixelSource : String
  /-- Uniforms in the order of their first use. -/
  uniforms : List UniformDeclaration
  /-- Samplers in the order of their first use. -/
  samplers : List SamplerDeclaration
  interpolatorCount : UInt32
  renderState : RenderState
  requirements : Requirements
deriving DecidableEq, Repr

namespace Artifact

def uniform? (a : Artifact) (name : String) : Option UniformDeclaration :=
  a.uniforms.find? fun u ↦ u.name = name

def sampler? (a : Artifact) (name : String) : Option SamplerDeclaration :=
  a.samplers.find? fun s ↦ s.name = name

def source (a : Artifact) : ShaderStage → String
  | .vertex => a.vertexSource
  | .pixel => a.pixelSource

/-- Both sources under headings. -/
def listing (a : Artifact) : String :=
  s!"// {a.backend.name} vertex stage\n{a.vertexSource}\n// {a.backend.name} pixel stage\n" ++
    a.pixelSource

end Artifact

/-- A stage list with one more stage, in the order of the pipeline. -/
def insertStage (stage : ShaderStage) (stages : List ShaderStage) : List ShaderStage :=
  if stage ∈ stages then stages
  else [.vertex, .pixel].filter fun s ↦ s ∈ stage :: stages

end ShaderGraph
