import Mathlib.Data.List.Nodup
import Mathlib.Data.List.Pairwise
import ShaderGraph.Proofs.Graph.Upstream

/-!
# Wiring

A graph is laid out if its nodes have the pins that their kinds describe, under names and identifiers
of their own. In a valid graph every connection then joins one output to one input. The nodes that feed
the pixel stage are those upstream of a pixel output up to the interpolators, and those that feed the
vertex stage are the nodes upstream of a vertex output or of such an interpolator.
-/

namespace ShaderGraph

/-- The node has the pins that its kind describes, each input under a name of its own. -/
structure Node.IsLaidOut (n : Node) : Prop where
  inputs : n.inputs.map Pin.name = n.kind.inputPins.map PinSpec.name
  outputs : n.outputs.map Pin.name = n.kind.outputPins.map PinSpec.name
  inputDirections : ∀ p ∈ n.inputs, p.direction = .input
  outputDirections : ∀ p ∈ n.outputs, p.direction = .output
  inputNames : (n.inputs.map Pin.name).Nodup

instance (n : Node) : Decidable n.IsLaidOut :=
  decidable_of_iff
    (n.inputs.map Pin.name = n.kind.inputPins.map PinSpec.name ∧
      n.outputs.map Pin.name = n.kind.outputPins.map PinSpec.name ∧
      (∀ p ∈ n.inputs, p.direction = .input) ∧ (∀ p ∈ n.outputs, p.direction = .output) ∧
      (n.inputs.map Pin.name).Nodup)
    ⟨fun ⟨h₁, h₂, h₃, h₄, h₅⟩ ↦ ⟨h₁, h₂, h₃, h₄, h₅⟩, fun h ↦ ⟨h.1, h.2, h.3, h.4, h.5⟩⟩

/-- Every node is laid out, and no two pins have the same identifier. -/
structure Graph.IsLaidOut (g : Graph) : Prop where
  nodes : ∀ n ∈ g.nodes.values, n.IsLaidOut
  pins : (g.nodes.values.flatMap fun n ↦ n.pins.map Pin.id).Nodup

instance (g : Graph) : Decidable g.IsLaidOut :=
  decidable_of_iff
    ((∀ n ∈ g.nodes.values, n.IsLaidOut) ∧
      (g.nodes.values.flatMap fun n ↦ n.pins.map Pin.id).Nodup)
    ⟨fun ⟨h₁, h₂⟩ ↦ ⟨h₁, h₂⟩, fun h ↦ ⟨h.1, h.2⟩⟩

namespace Node.IsLaidOut

variable {n : Node} {p : Pin}

theorem input?_name (h : n.IsLaidOut) (hp : p ∈ n.inputs) : n.input? p.name = some p := by
  have hinj := (List.nodup_map_iff_inj_on (List.Nodup.of_map _ h.inputNames)).mp h.inputNames
  unfold Node.input?
  cases hfind : n.inputs.find? (fun q ↦ q.name = p.name) with
  | none => simpa using List.find?_eq_none.mp hfind p hp
  | some q =>
    have hname : q.name = p.name := by simpa using List.find?_some hfind
    exact congrArg some (hinj q (List.mem_of_find?_eq_some hfind) p hp hname)

end Node.IsLaidOut

theorem Node.name_of_output? {n : Node} {name : String} {p : Pin} (h : n.output? name = some p) :
    p.name = name := by
  simpa using List.find?_some h

theorem Node.mem_of_pin? {n : Node} {id : PinId} {p : Pin} (h : n.pin? id = some p) :
    p ∈ n.pins ∧ p.id = id :=
  ⟨List.mem_of_find?_eq_some h, by simpa using List.find?_some h⟩

namespace Graph

/-- No two pins have the same identifier. -/
def HasDistinctPins (g : Graph) : Prop :=
  (g.nodes.values.flatMap fun n ↦ n.pins.map Pin.id).Nodup

instance (g : Graph) : Decidable g.HasDistinctPins :=
  inferInstanceAs (Decidable (List.Nodup _))

/-- A graph built by edits, laid out, whose connections join outputs to inputs. -/
structure IsWired (g : Graph) : Prop where
  consistent : g.Consistent
  laidOut : g.IsLaidOut
  joins : ∀ c ∈ g.connections.values, g.joins c

variable {g : Graph} {id id' : NodeId} {n n' : Node} {p p' : Pin} {c : Connection} {o : OutputRef}
  {pin : PinId}

/-- The nodes and the pins that a connection joins. -/
theorem exists_of_joins (h : g.joins c) :
    ∃ n p m q, g.node? c.fromNode = some n ∧ n.pin? c.fromPin = some p ∧
      g.node? c.toNode = some m ∧ m.pin? c.toPin = some q ∧ p.canConnect q := by
  unfold joins at h
  split at h
  · next p q hsource htarget =>
    obtain ⟨n, hn, hp⟩ := Option.bind_eq_some_iff.mp hsource
    obtain ⟨m, hm, hq⟩ := Option.bind_eq_some_iff.mp htarget
    exact ⟨n, p, m, q, hn, hp, hm, hq, h⟩
  · cases h

theorem joins_of_validate (h : g.validate = .ok ()) : ∀ c ∈ g.connections.values, g.joins c := by
  intro c hc
  unfold validate at h
  split at h
  · cases h
  · next hfind =>
    cases hfound : g.connections.values.find? (fun c ↦ !g.joins c) with
    | some c' => exact absurd hfound (hfind c')
    | none => simpa using List.find?_eq_none.mp hfound c hc

/-- In a graph that is laid out a connection that joins pins starts at an output. -/
theorem IsLaidOut.source_of_joins (h : g.IsLaidOut) (hjoins : g.joins c) :
    ∃ n p, g.node? c.fromNode = some n ∧ p ∈ n.outputs ∧ p.id = c.fromPin := by
  obtain ⟨n, p, -, q, hn, hp, -, -, hconnect⟩ := exists_of_joins hjoins
  obtain ⟨hmem, hid⟩ := Node.mem_of_pin? hp
  have hlaidOut := h.nodes n (OrderedMap.mem_values_of_get? hn)
  refine ⟨n, p, hn, ?_, hid⟩
  rcases List.mem_append.mp hmem with hp | hp
  · simp [Pin.canConnect, hlaidOut.inputDirections _ hp] at hconnect
  · exact hp

/-- A pin belongs to one node. -/
theorem HasDistinctPins.node_eq (h : g.HasDistinctPins) (hn : n ∈ g.nodes.values)
    (hn' : n' ∈ g.nodes.values) (hp : pin ∈ n.pins.map Pin.id) (hp' : pin ∈ n'.pins.map Pin.id) :
    n = n' := by
  by_contra hne
  have hsymm : Std.Symm (Function.onFun List.Disjoint fun n : Node ↦ n.pins.map Pin.id) :=
    ⟨fun _ _ h _ hx hx' ↦ h hx' hx⟩
  exact (List.nodup_flatMap.mp h).2.forall hn hn' hne hp hp'

/-- The outputs of a node are told apart by their identifiers. -/
theorem IsLaidOut.pins_inj (h : g.IsLaidOut) (hn : n ∈ g.nodes.values) {q : Pin}
    (hp : p ∈ n.outputs) (hq : q ∈ n.outputs) (heq : p.id = q.id) : p = q := by
  have hnodup : (n.pins.map Pin.id).Nodup := (List.nodup_flatMap.mp h.pins).1 n hn
  exact (List.nodup_map_iff_inj_on (List.Nodup.of_map _ hnodup)).mp hnodup p
    (List.mem_append_right _ hp) q (List.mem_append_right _ hq) heq

namespace IsWired

theorem node_eq (h : g.IsWired) (hn : n ∈ g.nodes.values) (hn' : n' ∈ g.nodes.values)
    (hp : p ∈ n.pins) (hp' : p' ∈ n'.pins) (heq : p.id = p'.id) : n = n' :=
  HasDistinctPins.node_eq h.laidOut.pins hn hn' (List.mem_map_of_mem hp)
    (heq ▸ List.mem_map_of_mem hp')

/-- A driven input gets its value from an output pin of a node. -/
theorem source (h : g.IsWired) (hc : g.driver? pin = some c) :
    ∃ n p, g.node? c.fromNode = some n ∧ p ∈ n.outputs ∧ p.id = c.fromPin := by
  obtain ⟨hc, -⟩ := h.consistent.driver?_eq_some_iff.mp hc
  exact h.laidOut.source_of_joins (h.joins c hc)

/-- A connection ends in an input pin of a node, which it drives. -/
theorem target (h : g.IsWired) (hc : c ∈ g.connections.values) :
    ∃ n p, g.node? c.toNode = some n ∧ p ∈ n.inputs ∧ g.driver? p.id = some c := by
  have hjoins := h.joins c hc
  obtain ⟨-, p, n, q, -, -, hn, hq, hconnect⟩ := exists_of_joins hjoins
  obtain ⟨hmem, hid⟩ := Node.mem_of_pin? hq
  have hlaidOut := h.laidOut.nodes n (OrderedMap.mem_values_of_get? hn)
  refine ⟨n, q, hn, ?_, h.consistent.driver?_eq_some_iff.mpr ⟨hc, hid.symm⟩⟩
  rcases List.mem_append.mp hmem with hq | hq
  · exact hq
  · simp [Pin.canConnect, hlaidOut.outputDirections _ hq] at hconnect

/-- The connection that drives an input of a node leads to that node. -/
theorem toNode_eq (h : g.IsWired) (hn : g.node? id = some n) (hp : p ∈ n.inputs)
    (hc : g.driver? p.id = some c) : c ∈ g.connections.values ∧ c.toNode = id := by
  obtain ⟨hmem, hpin⟩ := h.consistent.driver?_eq_some_iff.mp hc
  obtain ⟨m, q, hm, hq, hdriver⟩ := h.target hmem
  have hid := (h.consistent.driver?_eq_some_iff.mp hdriver).2
  have hsame : m = n := h.node_eq (OrderedMap.mem_values_of_get? hm)
    (OrderedMap.mem_values_of_get? hn) (List.mem_append_left _ hq) (List.mem_append_left _ hp)
    (hid.symm.trans hpin)
  subst hsame
  exact ⟨hmem, (h.consistent.nodes _ _ hm).symm.trans (h.consistent.nodes _ _ hn)⟩

theorem upstream_output {stop : NodeKind → Bool} (h : g.IsWired) (ho : g.Upstream stop pin o) :
    ∃ n p, g.node? o.node = some n ∧ p ∈ n.outputs ∧ p.id = o.pin := by
  cases ho with
  | driver hc => exact h.source hc
  | through _ _ _ _ hc => exact h.source hc

end IsWired

/-! ## Nodes that feed a stage -/

/-- A node upstream of a pixel output, up to the interpolators. -/
inductive FeedsPixel (g : Graph) : NodeId → Prop
  | output {n : Node} (hn : n ∈ g.nodes.values) (hkind : n.kind.isPixelOutput) : FeedsPixel g n.id
  | input {id : NodeId} {n : Node} {c : Connection} (h : FeedsPixel g id)
    (hn : g.node? id = some n) (hkind : n.kind.isInterpolator = false)
    (hc : c ∈ g.connections.values) (hto : c.toNode = id) : FeedsPixel g c.fromNode

/-- A node upstream of a vertex output, or of an interpolator that feeds the pixel stage. -/
inductive FeedsVertex (g : Graph) : NodeId → Prop
  | output {n : Node} (hn : n ∈ g.nodes.values) (hkind : n.kind.isVertexOutput) : FeedsVertex g n.id
  | interpolator {id : NodeId} {n : Node} {c : Connection} (h : g.FeedsPixel id)
    (hn : g.node? id = some n) (hkind : n.kind.isInterpolator)
    (hc : c ∈ g.connections.values) (hto : c.toNode = id) : FeedsVertex g c.fromNode
  | input {id : NodeId} {c : Connection} (h : FeedsVertex g id)
    (hc : c ∈ g.connections.values) (hto : c.toNode = id) : FeedsVertex g c.fromNode

theorem FeedsPixel.upstream (hg : g.IsWired) (h : g.FeedsPixel id) (hn : g.node? id = some n)
    (hkind : n.kind.isInterpolator = false) (hp : p ∈ n.inputs)
    (ho : g.Upstream NodeKind.isInterpolator p.id o) : g.FeedsPixel o.node := by
  induction ho with
  | driver hc =>
    obtain ⟨hmem, hto⟩ := hg.toNode_eq hn hp hc
    exact .input h hn hkind hmem hto
  | through _ hm hstop hq hc ih =>
    obtain ⟨hmem, hto⟩ := hg.toNode_eq hm hq hc
    exact .input ih hm hstop hmem hto

end Graph

end ShaderGraph
