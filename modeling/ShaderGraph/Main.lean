import ShaderGraph.Tool.Run

/-!
# The command line program
-/

namespace ShaderGraph.Tool

def FileError.ofSystem : IO.Error → FileError
  | .noFileOrDirectory .. => .notFound
  | .alreadyExists .. => .alreadyExists
  | .inappropriateType _ 20 _ => .notDirectory
  | .inappropriateType _ 21 _ => .isDirectory
  | e => .other (toString e)

/-- Runs an operation of the system and returns its failure as a value. -/
def attemptFile {α : Type} (operation : IO α) : IO (Except FileError α) := do
  match ← operation.toBaseIO with
  | .ok a => return .ok a
  | .error e => return .error (.ofSystem e)

instance : FileSystem IO where
  readText path := do
    match ← attemptFile (IO.FS.readBinFile path) with
    | .error e => return .error e
    | .ok bytes =>
      match String.fromUTF8? bytes with
      | some s => return .ok s
      | none => return .error .invalidText
  createDirectories path :=
    if path = "" then return .ok () else attemptFile (IO.FS.createDirAll path)
  writeBytes path contents := attemptFile (IO.FS.writeBinFile path ⟨contents.toArray⟩)

end ShaderGraph.Tool

open ShaderGraph.Tool in
/-- Prints what the tool prints, and the error in the other stream. -/
def main (args : List String) : IO UInt32 := do
  let outcome ← run args
  IO.print outcome.output
  if let some e := outcome.error? then IO.eprintln e.message
  return outcome.exitCode
