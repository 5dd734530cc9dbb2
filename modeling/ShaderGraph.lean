import ShaderGraph.Main
import ShaderGraph.Proofs.Definitions.Attributes
import ShaderGraph.Proofs.Definitions.Subroutines
import ShaderGraph.Proofs.Emission.CommonTypes
import ShaderGraph.Proofs.Emission.Constants
import ShaderGraph.Proofs.Emission.CountedLoops
import ShaderGraph.Proofs.Emission.Swizzle
import ShaderGraph.Proofs.Graph.Cycles
import ShaderGraph.Proofs.Graph.Dependence
import ShaderGraph.Proofs.Graph.Discovery
import ShaderGraph.Proofs.Graph.Histories
import ShaderGraph.Proofs.Json.Number
import ShaderGraph.Proofs.Json.Reader
import ShaderGraph.Proofs.Layout.Program
import ShaderGraph.Proofs.Lockstep.Cosmetics
import ShaderGraph.Proofs.Lockstep.DeadNodes
import ShaderGraph.Proofs.Lockstep.Renaming
import ShaderGraph.Proofs.Lockstep.Targets
import ShaderGraph.Proofs.Matrices.Program
import ShaderGraph.Proofs.Members.Program
import ShaderGraph.Proofs.Operands.Program
import ShaderGraph.Proofs.Placement.Bodies
import ShaderGraph.Proofs.Placement.Branches
import ShaderGraph.Proofs.Placement.Discards
import ShaderGraph.Proofs.Placement.LoopOutputs
import ShaderGraph.Proofs.Placement.Loops
import ShaderGraph.Proofs.Scope.Hygiene
import ShaderGraph.Proofs.Scope.Program
import ShaderGraph.Proofs.Source.Captures
import ShaderGraph.Proofs.Source.ScopeChain
import ShaderGraph.Proofs.Storage.Documents
import ShaderGraph.Proofs.Storage.Encodings
import ShaderGraph.Proofs.Tables.Program
import ShaderGraph.Proofs.Termination.Program
import ShaderGraph.Proofs.Tool.Arguments
import ShaderGraph.Proofs.Trace.Program
import ShaderGraph.Proofs.Upstream.Linkage
