import ShaderGraph.Proofs.Graph.Editing
import ShaderGraph.Proofs.Graph.Validity
import ShaderGraph.Proofs.Ron.Interpretation
import ShaderGraph.Proofs.Storage.Kinds
import ShaderGraph.Storage.Document

/-!
# Documents of graphs

A graph with finite floats is read back from its document with the same name, nodes and connections.
Its drivers are those that the connections give, so a graph built by editing has the drivers that it
had.
-/

namespace ShaderGraph

/-! ## Parts of graphs -/

theorem Uuid.restores (u : Uuid) : Restores .document u :=
  ⟨.text trivial, u.ofText?_text⟩

theorem NodeId.restores (id : NodeId) : Restores .document id :=
  .wrapper (by decide) rfl (Uuid.restores _)

theorem PinId.restores (id : PinId) : Restores .document id :=
  .wrapper (by decide) rfl (Uuid.restores _)

theorem ConnectionId.restores (id : ConnectionId) : Restores .document id :=
  .wrapper (by decide) rfl (Uuid.restores _)

/-- The floats of the default. -/
def Pin.floats (p : Pin) : List Binary32 :=
  match p.default? with
  | some l => l.components
  | none => []

theorem Pin.restores {p : Pin} (hp : ∀ x ∈ p.floats, x.isFinite = true) :
    Restores .document p := by
  have hdefault : Restores .document p.default? := by
    refine .option trivial fun l hl ↦ Literal.restores fun x hx ↦ hp x ?_
    rw [floats, Option.mem_def.mp hl]
    exact hx
  have hfields := RecordFields.Restores.build .document p Pin.mk
    |>.field "id" id (PinId.restores _)
    |>.field "name" name (.text trivial)
    |>.field "direction" direction (.labelled _)
    |>.field "optional" isOptional (.bool _)
    |>.field "default_value" default? hdefault
  exact .record (by decide) (by decide) hfields

/-- The floats of the position, of the configuration and of the defaults on pins. -/
def Node.floats (n : Node) : List Binary32 :=
  n.x :: n.y :: (n.kind.floats ++ n.pins.flatMap Pin.floats)

theorem Node.restores {n : Node} (hn : ∀ x ∈ n.floats, x.isFinite = true) :
    Restores .document n := by
  have hposition : Restores .document (pair n.x n.y) := .floats fun x hx ↦
    hn x (List.mem_append_left (n.kind.floats ++ n.pins.flatMap Pin.floats) hx)
  have hkind : Restores .document n.kind := NodeKind.restores fun x hx ↦ hn x (by simp [floats, hx])
  have hpin : ∀ p ∈ n.pins, Restores .document p := fun p hp ↦ Pin.restores fun x hx ↦ hn x (by
    have hmem : x ∈ n.pins.flatMap Pin.floats := List.mem_flatMap.mpr ⟨p, hp, hx⟩
    simp [floats, hmem])
  have hinputs : Restores .document n.inputs :=
    .list trivial fun p hp ↦ hpin p (List.mem_append_left _ hp)
  have houtputs : Restores .document n.outputs :=
    .list trivial fun p hp ↦ hpin p (List.mem_append_right _ hp)
  have hfields := RecordFields.Restores.build .document n (fun id name ↦ onPair (Node.mk id name))
    |>.field "id" id (NodeId.restores _)
    |>.field "name" name (.text trivial)
    |>.field "position" (fun n ↦ pair n.x n.y) hposition
    |>.field "kind" kind hkind
    |>.field "inputs" inputs hinputs
    |>.field "outputs" outputs houtputs
  exact .record (by decide) (by decide) hfields

theorem Connection.restores (c : Connection) : Restores .document c := by
  have hfields := RecordFields.Restores.build .document c Connection.mk
    |>.field "id" id (ConnectionId.restores _)
    |>.field "from_node" fromNode (NodeId.restores _)
    |>.field "from_port" fromPin (PinId.restores _)
    |>.field "to_node" toNode (NodeId.restores _)
    |>.field "to_port" toPin (PinId.restores _)
  exact .record (by decide) (by decide) hfields

/-! ## Graphs -/

namespace Graph

variable {g : Graph}

/-- Where the drivers follow from the connections, entries under their own identifiers and inputs
with one connection each are all that consistency takes. -/
theorem consistent_iff_of_drivers (hnodes : g.nodes.Distinct) (hconnections : g.connections.Distinct)
    (hdrivers : g.drivers = driversOf g.connections.values) :
    g.Consistent ↔ (∀ id n, g.node? id = some n → n.id = id) ∧
      (∀ id c, g.connection? id = some c → c.id = id) ∧
      (g.connections.values.map Connection.toPin).Nodup := by
  constructor
  · exact fun h ↦ ⟨h.nodes, h.connections, h.nodup_toPins⟩
  · rintro ⟨hn, hc, hpins⟩
    refine ⟨hnodes, hn, hconnections, hc, fun pin id ↦ ?_⟩
    rw [hdrivers, get?_driversOf hpins]
    constructor
    · rintro ⟨c, hmem, rfl, rfl⟩
      obtain ⟨key, hkey⟩ := hconnections.mem_values_iff.mp hmem
      obtain rfl := hc key c hkey
      exact ⟨c, hkey, rfl⟩
    · rintro ⟨c, hget, rfl⟩
      exact ⟨c, OrderedMap.mem_values_of_get? hget, hc id c hget, rfl⟩

/-- Drivers that are rebuilt from the connections keep a graph consistent. -/
theorem Consistent.reindex (h : g.Consistent) : g.reindex.Consistent :=
  (consistent_iff_of_drivers (g := g.reindex) h.nodesDistinct h.connectionsDistinct rfl).mpr
    ⟨h.nodes, h.connections, h.nodup_toPins⟩

/-- Every float in the graph is a number and not infinite. -/
def HasFiniteFloats (g : Graph) : Prop :=
  ∀ n ∈ g.nodes.values, ∀ x ∈ n.floats, x.isFinite = true

instance (g : Graph) : Decidable g.HasFiniteFloats :=
  inferInstanceAs (Decidable (∀ n ∈ g.nodes.values, ∀ x ∈ n.floats, x.isFinite = true))

/-- A graph is stored without its drivers, and restored with those that the connections give. -/
theorem recordFields_restores (hnodes : g.nodes.Distinct) (hconnections : g.connections.Distinct)
    (hfinite : g.HasFiniteFloats) : Graph.recordFields.Restores .document g g.reindex := by
  have hnode : ∀ e ∈ g.nodes.entries, Restores .document e.2 := fun e he ↦
    Node.restores (hfinite e.2 (List.mem_map_of_mem he))
  exact RecordFields.Restores.build .document g Graph.ofParts
    |>.field "name" name (.text trivial)
    |>.field "nodes" nodes (.map hnodes trivial trivial (fun e _ ↦ e.1.restores) hnode)
    |>.field "connections" connections
      (.map hconnections trivial trivial (fun e _ ↦ e.1.restores) fun e _ ↦ e.2.restores)

/-- What is read from the document of a graph. -/
theorem ofText?_text (hnodes : g.nodes.Distinct) (hconnections : g.connections.Distinct)
    (hfinite : g.HasFiniteFloats) : ofText? g.text = some g.reindex := by
  have hrestores := recordFields_restores hnodes hconnections hfinite
  have hadmits : (Stored.schema Graph).Admits .document (store g) :=
    hrestores.admitsRecord (by decide) (by decide)
  rw [ofText?, ofDocument?, text, Ron.read?_write hadmits false]
  exact hrestores.restoreRecord? "Graph"

/-- A graph with finite floats that was built by editing is read back from its document: the name,
the nodes and the connections are the same, in the same order and with all that they hold, and every
input pin has the driver that it had. -/
theorem text_restores (h : g.Built) (hfinite : g.HasFiniteFloats) :
    ∃ g', ofText? g.text = some g' ∧ g'.name = g.name ∧ g'.nodes = g.nodes ∧
      g'.connections = g.connections ∧ ∀ pin, g'.driver? pin = g.driver? pin := by
  have hconsistent := h.consistent
  refine ⟨g.reindex, ofText?_text hconsistent.nodesDistinct hconsistent.connectionsDistinct hfinite,
    rfl, rfl, rfl, fun pin ↦ Option.ext fun c ↦ ?_⟩
  rw [hconsistent.driver?_eq_some_iff, hconsistent.reindex.driver?_eq_some_iff]
  rfl

/-- A graph with texts that are written with escapes, floats of many digits, a case whose name would
be read as a value, defaults and a connection. -/
def inscribed : Graph :=
  let kinds := [.scalar ⟨0x3dcccccd⟩, .matrixIn, .sampler { mipBias := ⟨0x80000001⟩ },
    .script "na\"me" "\ta = b;\x00\u200b\n" [⟨"größe", .vec2⟩] []]
  let named : Graph := { name := "名前 \\" }
  (named.addKinds 0 kinds).addWires 0 [⟨0, "Output", 1, "XAxis"⟩]

theorem text_restores_inscribed :
    inscribed.connections.size = 1 ∧
      ∃ g', ofText? inscribed.text = some g' ∧ g'.name = inscribed.name ∧
        g'.nodes = inscribed.nodes ∧ g'.connections = inscribed.connections ∧
        ∀ pin, g'.driver? pin = inscribed.driver? pin :=
  ⟨by decide,
    text_restores (.addWires (.addKinds (.empty _) 0 _) 0 _) (by decide)⟩

end Graph

/-! ## Graphs read from documents

A document holds any entries under any keys. What is read from it has every key once and drivers
that follow from the connections: of several connections into one pin the last one counts, and it is
looked up under its own identifier. Validation adds that every connection joins an output pin to an
input pin. That the entries stand under their own identifiers and that no two connections share an
input is up to the document.
-/

namespace Graph

variable {g : Graph}

/-- The last of the stored connections that end in a pin. -/
def lastInto? (g : Graph) (pin : PinId) : Option Connection :=
  g.connections.values.reverse.find? fun c ↦ c.toPin = pin

/-- A restored graph holds maps without repeated keys and the drivers that its connections give. -/
theorem parts_of_restore? {d : Datum} (h : restore? d = some g) :
    g.nodes.Distinct ∧ g.connections.Distinct ∧ g.drivers = driversOf g.connections.values := by
  obtain ⟨_, _, rfl, hall⟩ := RecordFields.restoreRecord?_eq_some.mp h
  obtain ⟨_, _, _, connections, htwo, hconnections, rfl⟩ :=
    RecordFields.restore?_field_eq_some.mp hall
  obtain ⟨_, _, _, nodes, hone, hnodes, rfl⟩ := RecordFields.restore?_field_eq_some.mp htwo
  obtain ⟨_, _, _, name, hnone, -, rfl⟩ := RecordFields.restore?_field_eq_some.mp hone
  obtain ⟨rfl, -⟩ := RecordFields.restore?_build_eq_some.mp hnone
  exact ⟨OrderedMap.distinct_of_restore? hnodes, OrderedMap.distinct_of_restore? hconnections, rfl⟩

theorem get?_driversOf_reverse (cs : List Connection) (pin : PinId) :
    (driversOf cs).get? pin = (cs.reverse.find? fun c ↦ c.toPin = pin).map Connection.id := by
  rw [driversOf, OrderedMap.get?_ofList_eq_lookup_reverse, ← List.map_reverse]
  induction cs.reverse with
  | nil => rfl
  | cons c cs ih =>
    rw [List.map_cons, List.lookup_cons, List.find?_cons, ih]
    by_cases hc : c.toPin = pin
    · simp [hc]
    · have hne : (pin == c.toPin) = false := by simpa using Ne.symm hc
      simp [hc, hne]

theorem driver?_of_drivers (hdrivers : g.drivers = driversOf g.connections.values) (pin : PinId) :
    g.driver? pin = (g.lastInto? pin).bind fun c ↦ g.connection? c.id := by
  rw [driver?, hdrivers, get?_driversOf_reverse]
  exact Option.bind_map

/-- What a document that is read and found valid says about the store: each key is there once, every
connection joins an output to an input, and a pin is driven by the last connection into it, looked up
under its own identifier. The store is like one built by edits exactly if the document keeps its
entries under their own identifiers and gives no input two connections. -/
theorem loaded_store {s : String} (hload : ofText? s = some g) (hvalid : g.validate = .ok ()) :
    g.nodes.Distinct ∧ g.connections.Distinct ∧ (∀ c ∈ g.connections.values, g.joins c) ∧
      (∀ pin, g.driver? pin = (g.lastInto? pin).bind fun c ↦ g.connection? c.id) ∧
      (g.Consistent ↔ (∀ id n, g.node? id = some n → n.id = id) ∧
        (∀ id c, g.connection? id = some c → c.id = id) ∧
        (g.connections.values.map Connection.toPin).Nodup) := by
  obtain ⟨d, -, hd⟩ := Option.bind_eq_some_iff.mp hload
  obtain ⟨hnodes, hconnections, hdrivers⟩ := parts_of_restore? hd
  exact ⟨hnodes, hconnections, joins_of_validate hvalid, driver?_of_drivers hdrivers,
    consistent_iff_of_drivers hnodes hconnections hdrivers⟩

/-- The connection with a number from a source node to a node with one input. -/
def feeding (k : Nat) : Connection :=
  ⟨connectionNumber k, nodeNumber 0, pinNumber 0 .output 0, nodeNumber 1, pinNumber 1 .input 0⟩

/-- Two nodes with the given entries of connections. -/
def withEntries (entries : List (Nat × Nat)) : Graph :=
  { numbered [.frontFace, .negate] [] with
    connections := ⟨entries.map fun e ↦ (connectionNumber e.1, feeding e.2)⟩ }

/-- Two connections share an input. -/
def shared : Graph := withEntries [(0, 0), (1, 1)]

/-- A connection stands under another identifier than its own. -/
def astray : Graph := withEntries [(0, 1)]

theorem loaded_store_astray :
    ofText? astray.text = some astray.reindex ∧ astray.reindex.validate = .ok () ∧
      astray.reindex.nodes.Distinct ∧ astray.reindex.connections.Distinct ∧
      (∀ c ∈ astray.reindex.connections.values, astray.reindex.joins c) ∧
      (∀ pin, astray.reindex.driver? pin =
        (astray.reindex.lastInto? pin).bind fun c ↦ astray.reindex.connection? c.id) ∧
      (astray.reindex.Consistent ↔ (∀ id n, astray.reindex.node? id = some n → n.id = id) ∧
        (∀ id c, astray.reindex.connection? id = some c → c.id = id) ∧
        (astray.reindex.connections.values.map Connection.toPin).Nodup) :=
  have hload := ofText?_text (g := astray) (by decide) (by decide)
    (by decide)
  have hvalid : astray.reindex.validate = .ok () := by rfl
  ⟨hload, hvalid, loaded_store hload hvalid⟩

/-- Documents that are read and found valid although two connections end in one input, and although
a connection is not found at the input in which it ends. -/
theorem loaded_inconsistent :
    ofText? shared.text = some shared.reindex ∧ shared.reindex.validate = .ok () ∧
      feeding 0 ∈ shared.reindex.connections.values ∧
      feeding 1 ∈ shared.reindex.connections.values ∧
      (feeding 0).toPin = (feeding 1).toPin ∧ feeding 0 ≠ feeding 1 ∧
      ofText? astray.text = some astray.reindex ∧ astray.reindex.validate = .ok () ∧
      astray.reindex.connection? (connectionNumber 0) = some (feeding 1) ∧
      (feeding 1).id ≠ connectionNumber 0 ∧
      astray.reindex.driver? (feeding 1).toPin = none :=
  ⟨ofText?_text (by decide) (by decide) (by decide), by rfl,
    by decide, by decide, rfl, by decide,
    ofText?_text (by decide) (by decide) (by decide), by rfl, rfl,
    by decide, by rfl⟩

end Graph

end ShaderGraph
