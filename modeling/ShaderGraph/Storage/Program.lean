import ShaderGraph.Program.Artifact
import ShaderGraph.Storage.FixedFunction

/-!
# Stored form of settings and programs
-/

namespace ShaderGraph

def Settings.recordFields : RecordFields Settings Settings :=
  RecordFields.build Settings.mk
    |>.field "backend" backend
    |>.field "glsl_version" glslVersion
    |>.field "precision" precision
    |>.field "unroll_loops" unrollLoops?
    |>.field "emit_comments" emitComments

/-- Missing settings take their standard values. -/
instance : Stored Settings where
  schema := Settings.recordFields.schemaWithDefaults "CompilerSettings" {}
  store := Settings.recordFields.storeRecord "CompilerSettings"
  restore? := Settings.recordFields.restoreRecord?

def UniformDeclaration.recordFields : RecordFields UniformDeclaration UniformDeclaration :=
  RecordFields.build UniformDeclaration.mk
    |>.field "name" name
    |>.field "ty" type
    |>.field "length" length?
    |>.field "stages" stages

instance : Stored UniformDeclaration :=
  storedRecord "UniformDecl" UniformDeclaration.recordFields

def SamplerDeclaration.recordFields : RecordFields SamplerDeclaration SamplerDeclaration :=
  RecordFields.build SamplerDeclaration.mk
    |>.field "name" name
    |>.field "texture" texture
    |>.field "texture_type" textureType
    |>.field "state" state
    |>.field "stages" stages

instance : Stored SamplerDeclaration :=
  storedRecord "SamplerDecl" SamplerDeclaration.recordFields

def Requirements.recordFields : RecordFields Requirements Requirements :=
  RecordFields.build Requirements.mk
    |>.field "derivatives" derivatives
    |>.field "transpose" transpose
    |>.field "front_face" frontFace
    |>.field "fragment_position" fragmentPosition
    |>.field "instance_id" instanceId
    |>.field "target_size" targetSize

instance : Stored Requirements := storedRecord "Requirements" Requirements.recordFields

def Artifact.recordFields : RecordFields Artifact Artifact :=
  RecordFields.build Artifact.mk
    |>.field "backend" backend
    |>.field "vertex_source" vertexSource
    |>.field "pixel_source" pixelSource
    |>.field "uniforms" uniforms
    |>.field "samplers" samplers
    |>.field "interpolator_count" interpolatorCount
    |>.field "render_state" renderState
    |>.field "requirements" requirements

instance : Stored Artifact := storedRecord "ProgramArtifact" Artifact.recordFields

end ShaderGraph
