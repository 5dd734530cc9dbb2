import ShaderGraph.Emission.Error
import ShaderGraph.Tool.Files

/-!
# Errors of the tool
-/

namespace ShaderGraph.Tool

def usage : String :=
  "Usage: ordoplay_shaderc <graph.ron> [options]\n\nOptions:\n" ++
    "  --backend <glsl|glsl-es|hlsl>  Target language (overrides the settings file)\n" ++
    "  --settings <FILE>              Compiler settings in RON\n" ++
    "  --out-dir <DIR>                Write stage sources and the program artifact here\n" ++
    "  --format <ron|json|bin>        Program artifact format [default: ron]\n" ++
    "  -v, --verbose                  Debug logging\n" ++
    "  -h, --help                     Print this help"

inductive ToolError
  | usage (reason : String)
  | unknownBackend (name : String)
  | settingsUnreadable (error : FileError)
  | settingsInvalid
  | unreadable (path : String) (error : FileError)
  | graphInvalid
  | compile (error : CompileError)
  | unwritable (path : String) (error : FileError)
deriving DecidableEq, Repr

def ToolError.message : ToolError → String
  | usage reason => s!"{reason}\n\n{Tool.usage}"
  | unknownBackend name => s!"Unknown backend '{name}' (expected glsl, glsl-es or hlsl)"
  | settingsUnreadable e => s!"IO error: {e.message}"
  | settingsInvalid => "Failed to parse settings: not a settings document"
  | unreadable path e => s!"Failed to read {path}: {e.message}"
  | graphInvalid => "Failed to decode graph: not a graph document"
  | compile e => e.message
  | unwritable path e => s!"Failed to write {path}: {e.message}"

/-- The target with a name. -/
def backendNamed (name : String) : Except ToolError Backend :=
  match Backend.ofName? name with
  | some b => .ok b
  | none => .error (.unknownBackend name)

end ShaderGraph.Tool
