import ShaderGraph.Ron.Interpretation
import ShaderGraph.Ron.Printer
import ShaderGraph.Storage.Graph
import ShaderGraph.Storage.Program

/-!
# Documents

Graphs and settings as text. Documents of graphs leave out the names of records.
-/

namespace ShaderGraph

/-- Reads a value of a stored type from a document. -/
def ofDocument? (α : Type) [Stored α] (s : String) : Option α := do
  restore? (← Ron.read? (Stored.schema α) s)

def Graph.text (g : Graph) : String :=
  Ron.write false (store g)

def Graph.ofText? (s : String) : Option Graph :=
  ofDocument? Graph s

def Settings.text (s : Settings) : String :=
  Ron.write true (store s)

def Settings.ofText? (s : String) : Option Settings :=
  ofDocument? Settings s

end ShaderGraph
