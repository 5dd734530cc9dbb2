import ShaderGraph.Program.Encoding
import ShaderGraph.Tool.Error

/-!
# Arguments

The command line names one graph file and sets options, in any order. The last setting of an option
counts. A request for help ends the reading, so nothing after it can be wrong.
-/

namespace ShaderGraph.Tool

structure Arguments where
  graph : String := ""
  /-- Replaces the target of the settings. -/
  backend? : Option Backend := none
  settings? : Option String := none
  /-- Where to write files; without it the sources are printed. -/
  outDir? : Option String := none
  format : ArtifactFormat := .ron
  verbose : Bool := false
deriving DecidableEq, Repr

/-- Options that take the argument after them as their value. -/
inductive ValueOption
  | backend
  | settings
  | outDir
  | format
deriving DecidableEq, Repr

instance : Labelled ValueOption where
  all := [.backend, .settings, .outDir, .format]
  label
    | .backend => "--backend"
    | .settings => "--settings"
    | .outDir => "--out-dir"
    | .format => "--format"

inductive Command
  | help
  | compile (arguments : Arguments)
deriving DecidableEq, Repr

/-- The format with a name. -/
def formatNamed (name : String) : Except ToolError ArtifactFormat :=
  match ArtifactFormat.ofName? name with
  | some f => .ok f
  | none => .error (.usage s!"Unknown format '{asciiLower name}'")

namespace Arguments

def set (a : Arguments) (value : String) : ValueOption → Except ToolError Arguments
  | .backend => (backendNamed value).map fun b ↦ { a with backend? := some b }
  | .settings => .ok { a with settings? := some value }
  | .outDir => .ok { a with outDir? := some value }
  | .format => (formatNamed value).map fun f ↦ { a with format := f }

/-- Reads arguments into the options and the graph file found so far. -/
def parseFrom (a : Arguments) (graph? : Option String) : List String → Except ToolError Command
  | [] =>
    match graph? with
    | some graph => .ok (.compile { a with graph })
    | none => .error (.usage "Missing graph file")
  | arg :: rest =>
    if arg = "-h" ∨ arg = "--help" then .ok .help
    else if arg = "-v" ∨ arg = "--verbose" then parseFrom { a with verbose := true } graph? rest
    else
      match (Labelled.ofLabel? arg : Option ValueOption), rest with
      | some _, [] => .error (.usage s!"{arg} needs a value")
      | some option, value :: rest =>
        match a.set value option with
        | .ok a => parseFrom a graph? rest
        | .error e => .error e
      | none, rest =>
        if arg.toList.head? = some '-' then .error (.usage s!"Unknown option '{arg}'")
        else if graph?.isSome then .error (.usage "Only one graph file may be given")
        else parseFrom a (some arg) rest

/-- Reads the arguments after the name of the tool. -/
def parse (args : List String) : Except ToolError Command :=
  parseFrom {} none args

end Arguments

end ShaderGraph.Tool
