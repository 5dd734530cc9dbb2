import ShaderGraph.Proofs.Graph.Likeness
import ShaderGraph.Proofs.Lockstep.Program

/-!
# Renamed graphs

A compilation sees of a graph only its structure: the kinds of its nodes, their pins, and which outputs
drive which inputs. Identifiers, the order in which nodes and connections are stored, and what is displayed
of a node leave no trace in a program. Only the vertex outputs are emitted in the order of the nodes.
-/

namespace ShaderGraph

/-! ## Alike graphs -/

section Alike

variable {M : Matching} {g g' : Graph} {settings : Settings} {a : Artifact}

theorem Lock.prepared_of_alike (settings : Settings) (h : g.Alike M g')
    (hcorresponds : g.Corresponds M g') (hloose : ¬ M.strict) :
    (Lock.corresponding settings hcorresponds).Prepared (g.visit (g.nodes.size + 1))
      (g'.visit (g'.nodes.size + 1)) := by
  let L := Lock.corresponding settings hcorresponds
  constructor
  case validation =>
    change L.Follows _ (g.validate.mapError _) (g'.validate.mapError _)
    cases hvalid : g.validate with
    | error e => exact .error fun hstrict ↦ absurd hstrict hloose
    | ok _ =>
      rw [h.validate hcorresponds hvalid]
      exact .ok trivial
  case terminal =>
    change L.Follows L.Twin g.terminal g'.terminal
    cases hn : g.terminal with
    | error e => exact .error fun hstrict ↦ absurd hstrict hloose
    | ok n =>
      obtain ⟨m, hm, hnm⟩ := h.exists_terminal hn
      rw [hm]
      exact .ok hnm
  case vertexOutputs => exact h.vertexOutputs
  case admits => exact fun n _ ↦ Lock.admits_of_exact trivial n

/-- Alike graphs have the same programs. -/
theorem compile_of_alike (hg : g.Consistent) (hg' : g'.Consistent) (h : g.Alike M g')
    (hloose : ¬ M.strict) (ha : compile settings g = .ok a) : compile settings g' = .ok a := by
  have hcorresponds := h.corresponds hg hg' hloose
  let L := Lock.corresponding settings hcorresponds
  have hdemand (n : Node) (_ : n ∈ g.nodes.values) :
      L.Agree [n.id] EmitM.evaluate EmitM.evaluate := by
    have hsize : g'.nodes.size = g.nodes.size := by
      simpa [OrderedMap.values, OrderedMap.size] using h.nodes.length_eq
    have hdepth : EmitM.emissionDepth L.right.graph = EmitM.emissionDepth L.left.graph :=
      congrArg (2 * · + 2) hsize
    refine .evaluate ?_
    rw [hdepth]
    exact Lock.Lockstep.evaluateWithin (L := L) hloose
      (fun _ n _ ↦ Lock.admits_of_exact trivial n) _
  have hfollows :=
    (Lock.prepared_of_alike settings h hcorresponds hloose).compileBy trivial rfl rfl hdemand
  rw [compile_eq_compileBy] at ha ⊢
  change L.Follows Eq (compileBy _ _ settings g) (compileBy _ _ settings g') at hfollows
  rw [ha] at hfollows
  obtain ⟨b, hb, rfl⟩ := hfollows.exists_ok
  exact hb

end Alike

/-! ## Renamings -/

/-- Renamings of nodes, pins and connections that keep different ones apart. -/
structure Renaming where
  node : NodeId → NodeId
  pin : PinId → PinId
  connection : ConnectionId → ConnectionId
  node_injective : Function.Injective node
  pin_injective : Function.Injective pin
  connection_injective : Function.Injective connection

namespace Renaming

variable (r : Renaming)

def renamePin (p : Pin) : Pin :=
  { p with id := r.pin p.id }

def renameConnection (c : Connection) : Connection :=
  ⟨r.connection c.id, r.node c.fromNode, r.pin c.fromPin, r.node c.toNode, r.pin c.toPin⟩

/-- The second node is the first one under new identifiers, whatever its name and its position are. -/
structure Renames (n m : Node) : Prop where
  id : m.id = r.node n.id
  kind : m.kind = n.kind
  inputs : m.inputs = n.inputs.map r.renamePin
  outputs : m.outputs = n.outputs.map r.renamePin

/-- What a renaming makes of a graph, stored in any order apart from that of the vertex outputs. -/
structure RenamesGraph (g g' : Graph) : Prop where
  nodes : Reordered r.Renames g.nodes.values g'.nodes.values
  connections : (g.connections.values.map r.renameConnection).Perm g'.connections.values
  vertexOutputs : List.Forall₂ r.Renames (g.nodesOfKind NodeKind.isVertexOutput)
    (g'.nodesOfKind NodeKind.isVertexOutput)

def matching : Matching where
  node a b := b = r.node a
  pin p q := q = r.pin p
  strict := False

variable {r} {g g' : Graph}

theorem Renames.nodes {n m : Node} (h : r.Renames n m) : r.matching.Nodes n m where
  id := h.id
  kind := h.kind
  inputs := by
    rw [h.inputs, List.forall₂_map_right_iff, List.forall₂_same]
    exact fun p _ ↦ ⟨rfl, rfl, rfl, rfl, rfl⟩
  outputs := by
    rw [h.outputs, List.forall₂_map_right_iff, List.forall₂_same]
    exact fun p _ ↦ ⟨rfl, rfl, rfl, rfl, rfl⟩
  same := nofun

theorem RenamesGraph.alike (h : r.RenamesGraph g g') : g.Alike r.matching g' where
  nodesApart := by
    rintro a _ b _ rfl rfl
    exact r.node_injective.eq_iff.symm
  pinsApart := by
    rintro a _ b _ rfl rfl
    exact r.pin_injective.eq_iff.symm
  nodes := by
    obtain ⟨ns, hrenames, hperm⟩ := h.nodes
    exact ⟨ns, hrenames.imp fun _ _ hnm ↦ hnm.nodes, hperm⟩
  connections := by
    refine ⟨_, ?_, h.connections⟩
    rw [List.forall₂_map_right_iff, List.forall₂_same]
    exact fun c _ ↦ ⟨rfl, rfl, rfl, rfl⟩
  vertexOutputs := h.vertexOutputs.imp fun _ _ hnm ↦ hnm.nodes

end Renaming

/-- The program of a graph does not depend on identifiers, on the order in which nodes and connections
were added, on what is displayed of nodes, or on the name of the graph. -/
theorem compile_renamed (settings : Settings) {r : Renaming} {g g' : Graph} (hbuilt : g.Built)
    (hbuilt' : g'.Built) (h : r.RenamesGraph g g') (a : Artifact) :
    compile settings g = .ok a ↔ compile settings g' = .ok a := by
  have hg := hbuilt.consistent
  have hg' := hbuilt'.consistent
  exact ⟨compile_of_alike hg hg' h.alike id, compile_of_alike hg' hg h.alike.flip id⟩

/-- Adds a number to all identifiers. -/
def Renaming.shift (k : Nat) : Renaming where
  node id := ⟨⟨id.uuid.value + BitVec.ofNat 128 k⟩⟩
  pin id := ⟨⟨id.uuid.value + (BitVec.ofNat 64 k ++ 0#64)⟩⟩
  connection id := ⟨⟨id.uuid.value + BitVec.ofNat 128 k⟩⟩
  node_injective := by
    rintro ⟨⟨a⟩⟩ ⟨⟨b⟩⟩ h
    simpa using h
  pin_injective := by
    rintro ⟨⟨a⟩⟩ ⟨⟨b⟩⟩ h
    simpa using h
  connection_injective := by
    rintro ⟨⟨a⟩⟩ ⟨⟨b⟩⟩ h
    simpa using h

theorem append_add_append_zero (a b c : BitVec 64) : (a ++ b) + (c ++ 0#64) = (a + c) ++ b := by
  apply BitVec.eq_of_toNat_eq
  have happend (x y : BitVec 64) : (x ++ y).toNat = x.toNat * 2 ^ 64 + y.toNat := by
    rw [BitVec.toNat_append, ← Nat.shiftLeft_add_eq_or_of_lt y.isLt, Nat.shiftLeft_eq]
  rw [BitVec.toNat_add, happend, happend, happend, BitVec.toNat_add]
  have := a.isLt
  have := b.isLt
  have := c.isLt
  simp only [BitVec.toNat_ofNat]
  omega

/-- Shifted numbers are numbers. -/
theorem Renaming.shift_pinNumber (j k : Nat) (d : PinDirection) (i : Nat) :
    (Renaming.shift j).pin (Graph.pinNumber k d i) = Graph.pinNumber (k + j) d i := by
  cases d <;> simp [Renaming.shift, Graph.pinNumber, append_add_append_zero, BitVec.ofNat_add]

theorem Renaming.renames_ofKind (j k : Nat) (kind : NodeKind) (name : String) :
    (Renaming.shift j).Renames (.ofKind (Graph.nodeNumber k) (Graph.pinNumber k) kind)
      { Node.ofKind (Graph.nodeNumber (k + j)) (Graph.pinNumber (k + j)) kind with name } := by
  have hpins (d : PinDirection) (specs : List PinSpec) :
      (specs.mapIdx fun i spec ↦ Pin.ofSpec (Graph.pinNumber (k + j) d i) d spec) =
        (specs.mapIdx fun i spec ↦ Pin.ofSpec (Graph.pinNumber k d i) d spec).map
          (Renaming.shift j).renamePin := by
    refine List.ext_getElem (by simp) fun i _ _ ↦ ?_
    simp [Renaming.renamePin, Pin.ofSpec, Renaming.shift_pinNumber]
  exact ⟨by simp [Node.ofKind, Graph.nodeNumber, Renaming.shift, BitVec.ofNat_add], rfl, hpins _ _,
    hpins _ _⟩
/-- A color that is inverted. -/
def inversion : Graph :=
  .numbered
    [.pixelOutput {}, .negate, .uniform "tint" .vec4, .vertexOutput,
      .vertexInput "position" .position .vec4 0]
    [⟨1, "Output", 0, "Input"⟩, ⟨2, "Output", 1, "Input"⟩, ⟨4, "Output", 3, "Input"⟩]

/-- The same structure with other numbers, put together in another order, with a name for one node. -/
def renumberedInversion : Graph :=
  let nodes := (({ name := "Inversion" } : Graph).addKinds 12
    [.uniform "tint" .vec4, .vertexOutput, .vertexInput "position" .position .vec4 0]).addKinds 10
    [.pixelOutput {}, .negate]
  let negation := Node.ofKind (Graph.nodeNumber 11) (Graph.pinNumber 11) .negate
  ((nodes.addNode { negation with name := "Inverted" }).addWires 11
    [⟨12, "Output", 11, "Input"⟩, ⟨14, "Output", 13, "Input"⟩]).addWires 10
    [⟨11, "Output", 10, "Input"⟩]

theorem renamesGraph_inversion : (Renaming.shift 10).RenamesGraph inversion renumberedInversion := by
  let node (k : Nat) (kind : NodeKind) : Node :=
    .ofKind (Graph.nodeNumber k) (Graph.pinNumber k) kind
  let tint (k : Nat) : Node := node k (.uniform "tint" .vec4)
  let position (k : Nat) : Node := node k (.vertexInput "position" .position .vec4 0)
  have hnodes : inversion.nodes.values =
      [node 0 (.pixelOutput {}), node 1 .negate, tint 2, node 3 .vertexOutput, position 4] := by
    rw [inversion, Graph.numbered, Graph.nodes_addWires]
    rfl
  have hnodes' : renumberedInversion.nodes.values =
      [tint 12, node 13 .vertexOutput, position 14] ++
        [node 10 (.pixelOutput {}), { node 11 .negate with name := "Inverted" }] := by
    rw [renumberedInversion, Graph.nodes_addWires, Graph.nodes_addWires]
    rfl
  constructor
  case nodes =>
    rw [hnodes, hnodes']
    refine ⟨_, ?_, List.perm_append_comm⟩
    exact .cons (Renaming.renames_ofKind 10 0 _ _) <| .cons (Renaming.renames_ofKind 10 1 _ _) <|
      .cons (Renaming.renames_ofKind 10 2 _ _) <| .cons (Renaming.renames_ofKind 10 3 _ _) <|
      .cons (Renaming.renames_ofKind 10 4 _ _) .nil
  case connections => decide +kernel
  case vertexOutputs =>
    rw [Graph.nodesOfKind, Graph.nodesOfKind, hnodes, hnodes']
    exact .cons (Renaming.renames_ofKind 10 3 _ _) .nil

theorem compile_renamed_inversion :
    inversion.Built ∧ renumberedInversion.Built ∧
      (Renaming.shift 10).RenamesGraph inversion renumberedInversion ∧
      ∃ a, compile {} inversion = .ok a ∧ compile {} renumberedInversion = .ok a := by
  have hbuilt : inversion.Built := Graph.built_numbered _ _
  have hbuilt' : renumberedInversion.Built :=
    .addWires (.addWires (.addNode _ (.addKinds (.addKinds (.empty _) _ _) _ _)) _ _) _ _
  obtain ⟨a, ha⟩ := exists_ok_of_isOk (x := compile {} inversion) (by decide +kernel)
  exact ⟨hbuilt, hbuilt', renamesGraph_inversion, a, ha,
    (compile_renamed {} hbuilt hbuilt' renamesGraph_inversion a).mp ha⟩

end ShaderGraph
