import ShaderGraph.Program.Compile
import ShaderGraph.Storage.Document
import ShaderGraph.Tool.Arguments

/-!
# A run of the tool

The tool loads settings and a graph, compiles the graph, and prints the sources or writes them and
the program to files.
-/

namespace ShaderGraph.Tool

/-- What a run shows. Files are left in the file system. -/
structure Outcome where
  output : String := ""
  error? : Option ToolError := none

def Outcome.exitCode (o : Outcome) : UInt32 :=
  if o.error?.isSome then 1 else 0

/-- End of the name of the file with the source of a stage. -/
def stageExtension : Backend → ShaderStage → String
  | .hlsl, .vertex => "vs.hlsl"
  | .hlsl, .pixel => "ps.hlsl"
  | _, .vertex => "vert"
  | _, .pixel => "frag"

/-- The files that hold a program, in the order in which they are written. -/
def outputFiles (a : Artifact) (stem : String) (format : ArtifactFormat) :
    List (String × Encoded) :=
  [(s!"{stem}.{stageExtension a.backend .vertex}", .text a.vertexSource),
    (s!"{stem}.{stageExtension a.backend .pixel}", .text a.pixelSource),
    (s!"{stem}.program.{format.extension}", a.encode format)]

section Run

variable {m : Type → Type} [Monad m] [FileSystem m]

def loadSettings : Option String → ExceptT ToolError m Settings
  | none => return {}
  | some path => do
    match ← (FileSystem.readText path : m _) with
    | .error e => throw (.settingsUnreadable e)
    | .ok s =>
      match Settings.ofText? s with
      | some settings => return settings
      | none => throw .settingsInvalid

def loadGraph (path : String) : ExceptT ToolError m Graph := do
  match ← (FileSystem.readText path : m _) with
  | .error e => throw (.unreadable path e)
  | .ok s =>
    match Graph.ofText? s with
    | some g => return g
    | none => throw .graphInvalid

/-- An operation on a file that is to be written. -/
def writing (path : String) (operation : m (Except FileError Unit)) :
    ExceptT ToolError m Unit := do
  match ← operation with
  | .ok _ => return
  | .error e => throw (.unwritable path e)

def writeOutputs (directory : String) (files : List (String × Encoded)) :
    ExceptT ToolError m Unit := do
  writing directory (FileSystem.createDirectories directory)
  files.forM fun (name, contents) ↦
    let path := Path.join directory name
    writing path (FileSystem.writeBytes path contents.toBytes)

/-- Compiles a graph file; the result is what is printed. -/
def compileFile (a : Arguments) : ExceptT ToolError m String := do
  let settings ← loadSettings a.settings?
  let settings := match a.backend? with
    | some backend => { settings with backend }
    | none => settings
  let graph ← loadGraph a.graph
  match compile settings graph with
  | .error e => throw (.compile e)
  | .ok artifact =>
    match a.outDir? with
    | none => return artifact.listing
    | some directory =>
      let stem := ((Path.fileName? a.graph).map Path.stem).getD graph.name
      writeOutputs directory (outputFiles artifact stem a.format)
      return ""

/-- Runs the tool with the arguments after its name. -/
def run (args : List String) : m Outcome := do
  match Arguments.parse args with
  | .error e => return { error? := some e }
  | .ok .help => return { output := usage ++ "\n" }
  | .ok (.compile a) =>
    match ← (compileFile a).run with
    | .ok output => return { output }
    | .error e => return { error? := some e }

end Run

end ShaderGraph.Tool
