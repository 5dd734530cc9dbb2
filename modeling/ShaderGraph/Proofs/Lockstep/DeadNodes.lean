import Mathlib.Data.List.Flatten
import ShaderGraph.Proofs.Graph.Validity
import ShaderGraph.Proofs.Termination.Program

/-!
# Dead nodes

A node is live if connections lead from it to a pixel output or a vertex output. A compilation only ever
looks at live nodes and at what drives their pins, and whatever drives a pin of a live node is live. So
dead nodes can be removed from a valid graph.
-/

namespace ShaderGraph

namespace Graph

variable {g : Graph} {id source target : NodeId} {n : Node} {c : Connection} {pin : PinId}

/-! ## Live nodes -/

/-- A connection leads from the first node to the second. -/
def Leads (g : Graph) (source target : NodeId) : Prop :=
  ∃ c ∈ g.connections.values, c.fromNode = source ∧ c.toNode = target

/-- Connections lead from the node to a pixel output or a vertex output, or it is one. -/
def IsLive (g : Graph) (id : NodeId) : Prop :=
  ∃ n ∈ g.nodes.values, (n.kind.isPixelOutput ∨ n.kind.isVertexOutput) ∧
    Relation.ReflTransGen g.Leads id n.id

theorem IsLive.fromNode (h : g.IsLive c.toNode) (hc : c ∈ g.connections.values) :
    g.IsLive c.fromNode := by
  obtain ⟨n, hn, hkind, hpath⟩ := h
  exact ⟨n, hn, hkind, hpath.head ⟨c, hc, rfl, rfl⟩⟩

theorem isLive_of_kind (hn : n ∈ g.nodes.values)
    (hkind : n.kind.isPixelOutput ∨ n.kind.isVertexOutput) : g.IsLive n.id :=
  ⟨n, hn, hkind, .refl⟩

/-- Nodes from which connections lead to one another only, and of which none is an output, are dead. -/
theorem not_isLive_of_closed {ids : List NodeId}
    (hclosed : ∀ c ∈ g.connections.values, c.fromNode ∈ ids → c.toNode ∈ ids)
    (hkind : ∀ n ∈ g.nodes.values, n.id ∈ ids →
      ¬ (n.kind.isPixelOutput ∨ n.kind.isVertexOutput)) (hid : id ∈ ids) : ¬ g.IsLive id := by
  rintro ⟨n, hn, houtput, hpath⟩
  have hmem {target : NodeId} (hpath : Relation.ReflTransGen g.Leads id target) : target ∈ ids := by
    induction hpath with
    | refl => exact hid
    | tail _ hstep ih =>
      obtain ⟨c, hc, rfl, rfl⟩ := hstep
      exact hclosed c hc ih
  exact hkind n hn (hmem hpath) houtput

/-- The pin belongs to a live node. -/
def IsLivePin (g : Graph) (pin : PinId) : Prop :=
  ∃ n ∈ g.nodes.values, g.IsLive n.id ∧ pin ∈ n.pins.map Pin.id

/-- Live nodes and their pins are matched with themselves. -/
def liveMatching (g : Graph) : Matching where
  node a b := b = a ∧ g.IsLive a
  pin p q := q = p ∧ g.IsLivePin p
  strict := True

theorem liveMatching_nodes (hn : n ∈ g.nodes.values) (hlive : g.IsLive n.id) :
    g.liveMatching.Nodes n n := by
  have hpins {ps : List Pin} (hsubset : ps ⊆ n.pins) :
      List.Forall₂ g.liveMatching.Pins ps ps :=
    List.forall₂_same.mpr fun p hp ↦
      ⟨⟨rfl, n, hn, hlive, List.mem_map_of_mem (hsubset hp)⟩, rfl, rfl, rfl, rfl⟩
  exact ⟨⟨rfl, hlive⟩, rfl, hpins (List.subset_append_left _ _),
    hpins (List.subset_append_right _ _), fun _ ↦ rfl⟩

/-- Whatever drives a pin of a live node is an output of a live node. -/
theorem IsLivePin.driver (hg : g.Consistent) (hpins : g.HasDistinctPins)
    (hjoins : ∀ c ∈ g.connections.values, g.joins c) (h : g.IsLivePin pin)
    (hc : g.driver? pin = some c) :
    g.IsLive c.toNode ∧ g.IsLive c.fromNode ∧ g.IsLivePin c.fromPin := by
  obtain ⟨n, hn, hlive, hpin⟩ := h
  obtain ⟨hmem, rfl⟩ := hg.driver?_eq_some_iff.mp hc
  obtain ⟨source, p, target, q, hsource, hp, htarget, hq, -⟩ := exists_of_joins (hjoins c hmem)
  have hto : c.toPin ∈ target.pins.map Pin.id :=
    List.mem_map.mpr ⟨q, Node.mem_of_pin? hq⟩
  obtain rfl : target = n :=
    hpins.node_eq (OrderedMap.mem_values_of_get? htarget) hn hto hpin
  rw [hg.nodes _ _ htarget] at hlive
  have hlive' : g.IsLive c.fromNode := IsLive.fromNode hlive hmem
  refine ⟨hlive, hlive', source, OrderedMap.mem_values_of_get? hsource, ?_,
    List.mem_map.mpr ⟨p, Node.mem_of_pin? hp⟩⟩
  rwa [hg.nodes _ _ hsource]

/-! ## Removal -/

theorem mem_nodes_removeNode (hg : g.Consistent) :
    n ∈ (g.removeNode id).nodes.values ↔ n ∈ g.nodes.values ∧ n.id ≠ id := by
  rw [(hg.removeNode id).mem_nodes_iff, hg.mem_nodes_iff, node?_removeNode]
  by_cases hid : n.id = id <;> simp [hid]

/-- Removes nodes one after another. -/
def removeNodes (g : Graph) (ids : List NodeId) : Graph :=
  ids.foldl removeNode g

/-- The nodes of a kind that the removed node is not of. -/
theorem nodesOfKind_removeNode (hg : g.Consistent) {p : NodeKind → Bool}
    (hkind : ∀ n ∈ g.nodes.values, n.id = id → p n.kind = false) :
    (g.removeNode id).nodesOfKind p = g.nodesOfKind p := by
  change ((g.nodes.entries.filter fun e ↦ e.1 ≠ id).map Prod.snd).filter (fun n ↦ p n.kind) =
    (g.nodes.entries.map Prod.snd).filter fun n ↦ p n.kind
  rw [List.filter_map, List.filter_map, List.filter_filter]
  refine congrArg (List.map Prod.snd) (List.filter_congr fun e he ↦ ?_)
  by_cases hid : e.1 = id
  · have hstored := hg.nodes e.1 e.2 (hg.nodesDistinct.get?_eq_some_iff.mpr he)
    simp [hid, hkind e.2 (List.mem_map_of_mem he) (hstored.trans hid)]
  · simp [hid]

theorem Consistent.driver?_removeNode_eq_some_iff (hg : g.Consistent) :
    (g.removeNode id).driver? pin = some c ↔
      g.driver? pin = some c ∧ c.fromNode ≠ id ∧ c.toNode ≠ id := by
  rw [(hg.removeNode id).driver?_eq_some_iff, hg.driver?_eq_some_iff, mem_connections_removeNode]
  tauto

theorem Leads.of_removeNode (h : (g.removeNode id).Leads source target) : g.Leads source target := by
  obtain ⟨c, hc, hends⟩ := h
  exact ⟨c, (mem_connections_removeNode.mp hc).1, hends⟩

/-- A removal makes no node live. -/
theorem IsLive.of_removeNode (hg : g.Consistent) {other : NodeId}
    (h : (g.removeNode id).IsLive other) : g.IsLive other := by
  obtain ⟨n, hn, hkind, hpath⟩ := h
  exact ⟨n, ((mem_nodes_removeNode hg).mp hn).1, hkind,
    Relation.ReflTransGen.mono (fun _ _ ↦ Leads.of_removeNode) _ _ hpath⟩

theorem HasDistinctPins.removeNode (h : g.HasDistinctPins) (id : NodeId) :
    (g.removeNode id).HasDistinctPins :=
  List.Nodup.sublist ((List.filter_sublist.map Prod.snd).flatMap _) h

/-- A valid graph stays valid. -/
theorem validate_removeNode (h : g.validate = .ok ()) (id : NodeId) :
    (g.removeNode id).validate = .ok () := by
  rw [validate_eq_ok_iff] at h ⊢
  obtain ⟨hjoins, hacyclic⟩ := h
  refine ⟨fun c hc ↦ ?_, fun other hcycle ↦ hacyclic other (Relation.TransGen.mono ?_ _ _ hcycle)⟩
  · obtain ⟨hmem, hfrom, hto⟩ := mem_connections_removeNode.mp hc
    rw [joins, node?_removeNode, node?_removeNode, if_neg hfrom, if_neg hto]
    exact hjoins c hmem
  · intro source target hstep
    rw [precedes_iff] at hstep ⊢
    obtain ⟨c, hc, rfl, hends⟩ := hstep
    obtain ⟨hmem, hfrom, -⟩ := mem_connections_removeNode.mp hc
    rw [isLoopNode, node?_removeNode, if_neg hfrom] at hends
    exact ⟨c, hmem, rfl, hends⟩

/-- A graph from which a dead node is removed corresponds to the whole graph. -/
theorem corresponds_removeNode (hg : g.Consistent) (hpins : g.HasDistinctPins)
    (hjoins : ∀ c ∈ g.connections.values, g.joins c) (hdead : ¬ g.IsLive id) :
    (g.removeNode id).Corresponds g.liveMatching g where
  nodesApart := by
    rintro a _ b _ ⟨rfl, -⟩ ⟨rfl, -⟩
    exact Iff.rfl
  pinsApart := by
    rintro a _ b _ ⟨rfl, -⟩ ⟨rfl, -⟩
    exact Iff.rfl
  nodes := by
    intro a b hab
    obtain ⟨rfl, hlive⟩ : b = a ∧ g.IsLive a := hab
    have hne : b ≠ id := fun heq ↦ hdead (heq ▸ hlive)
    rw [node?_removeNode, if_neg hne]
    cases hn : g.node? b with
    | none => exact .none
    | some n =>
      have hid := hg.nodes b n hn
      exact .some (liveMatching_nodes (OrderedMap.mem_values_of_get? hn) (hid ▸ hlive))
  drivers := by
    intro p q hpq
    obtain ⟨rfl, hlive⟩ : q = p ∧ g.IsLivePin p := hpq
    cases hc : g.driver? q with
    | none =>
      have hnone : (g.removeNode id).driver? q = none := by
        rw [Option.eq_none_iff_forall_ne_some]
        intro c hc'
        rw [hg.driver?_removeNode_eq_some_iff, hc] at hc'
        cases hc'.1
      rw [hnone]
      exact .none
    | some c =>
      obtain ⟨hto, hfrom, hpin⟩ := hlive.driver hg hpins hjoins hc
      have hkept : (g.removeNode id).driver? q = some c :=
        hg.driver?_removeNode_eq_some_iff.mpr ⟨hc, fun heq ↦ hdead (heq ▸ hfrom), fun heq ↦ hdead (heq ▸ hto)⟩
      rw [hkept]
      exact .some ⟨⟨rfl, hfrom⟩, rfl, hpin⟩
  sameNodes _ _ _ h := h.1
  samePins _ _ _ h := h.1

end Graph

/-! ## Compilations -/

section Removal

variable {g : Graph} {id : NodeId}

theorem Lock.prepared_removal (settings : Settings) (hg : g.Consistent) (hpins : g.HasDistinctPins)
    (hvalid : g.validate = .ok ()) (hdead : ¬ g.IsLive id) :
    (Lock.corresponding settings
      (Graph.corresponds_removeNode hg hpins (Graph.joins_of_validate hvalid) hdead)).Prepared
      ((g.removeNode id).visit ((g.removeNode id).nodes.size + 1)) (g.visit (g.nodes.size + 1)) := by
  let L := Lock.corresponding settings
    (Graph.corresponds_removeNode hg hpins (Graph.joins_of_validate hvalid) hdead)
  have hnodes {p : NodeKind → Bool} (hp : ∀ k, p k → k.isPixelOutput ∨ k.isVertexOutput) :
      (g.removeNode id).nodesOfKind p = g.nodesOfKind p :=
    Graph.nodesOfKind_removeNode hg fun n hn hid ↦ by
      by_contra hkind
      exact hdead (hid ▸ Graph.isLive_of_kind hn (hp _ (by simpa using hkind)))
  have htwin (n : Node) (hn : n ∈ g.nodes.values)
      (hkind : n.kind.isPixelOutput ∨ n.kind.isVertexOutput) : L.Twin n n :=
    Graph.liveMatching_nodes hn (Graph.isLive_of_kind hn hkind)
  constructor
  case validation =>
    change L.Follows _ ((g.removeNode id).validate.mapError _) (g.validate.mapError _)
    rw [Graph.validate_removeNode hvalid id, hvalid]
    exact .ok trivial
  case terminal =>
    have hterminal : (g.removeNode id).terminal = g.terminal := by
      rw [Graph.terminal, Graph.terminal, hnodes fun _ ↦ .inl]
    change L.Follows L.Twin (g.removeNode id).terminal g.terminal
    rw [hterminal]
    cases hn : g.terminal with
    | error e => exact .error fun _ ↦ rfl
    | ok n =>
      exact .ok (htwin n (Graph.terminal_mem hn) (.inl (Graph.isPixelOutput_of_terminal hn)))
  case vertexOutputs =>
    change List.Forall₂ L.Twin ((g.removeNode id).nodesOfKind _) (g.nodesOfKind _)
    rw [hnodes fun _ ↦ .inr]
    refine List.forall₂_same.mpr fun n hn ↦ ?_
    obtain ⟨hmem, hvertex⟩ := List.mem_filter.mp hn
    exact htwin n hmem (.inr hvertex)
  case admits => exact fun n _ ↦ Lock.admits_of_exact trivial n

/-- The removal of a dead node does not change the result of a compilation. -/
theorem compile_removeNode (settings : Settings) (hg : g.Consistent) (hpins : g.HasDistinctPins)
    (hvalid : g.validate = .ok ()) (hdead : ¬ g.IsLive id) :
    compile settings (g.removeNode id) = compile settings g := by
  let L := Lock.corresponding settings
    (Graph.corresponds_removeNode hg hpins (Graph.joins_of_validate hvalid) hdead)
  have hdemand (n : Node) (hn : n ∈ (g.removeNode id).nodes.values) :
      L.Agree [n.id] EmitM.evaluate EmitM.evaluate := by
    -- The depth of either evaluation exceeds the number of nodes that are left.
    have hsize : (g.removeNode id).nodes.size ≤ g.nodes.size := List.length_filter_le _ _
    refine .evaluate ?_
    rw [EmitM.evaluateWithin_eq_iterate, EmitM.evaluateWithin_eq_iterate (EmitM.emissionDepth _)]
    exact Lock.agree_evaluateStep_iterate (L := L) (hg.removeNode id).isKeyed trivial
      (fun n _ ↦ Lock.admits_of_exact trivial n) (EmitM.lt_emissionDepth (Nat.le_refl _))
      (EmitM.lt_emissionDepth hsize) _ _ hn
  have hfollows :=
    (Lock.prepared_removal settings hg hpins hvalid hdead).compileBy trivial rfl rfl hdemand
  rw [compile_eq_compileBy, compile_eq_compileBy]
  exact (hfollows.eq (L := L) trivial).symm

/-- Dead nodes can be removed from a valid graph: the compilation has the same result, be it a program
or an error. -/
theorem compile_removeNodes (settings : Settings) {g : Graph} (hbuilt : g.Built)
    (hpins : g.HasDistinctPins) (hvalid : g.validate = .ok ()) {ids : List NodeId}
    (hdead : ∀ id ∈ ids, ¬ g.IsLive id) :
    compile settings (g.removeNodes ids) = compile settings g := by
  induction ids generalizing g with
  | nil => rfl
  | cons id ids ih =>
    have hg := hbuilt.consistent
    have hrest : ∀ other ∈ ids, ¬ (g.removeNode id).IsLive other := fun other hother hlive ↦
      hdead other (List.mem_cons_of_mem _ hother) (hlive.of_removeNode hg)
    rw [Graph.removeNodes, List.foldl_cons, ← Graph.removeNodes, ih (.removeNode id hbuilt)
      (hpins.removeNode id) (Graph.validate_removeNode hvalid id) hrest]
    exact compile_removeNode settings hg hpins hvalid (hdead id List.mem_cons_self)

/-- A loop that starts from a value of use, but the result of which is of no use. -/
def uselessLoop : Graph :=
  .numbered
    [.pixelOutput {}, .arithmetic .add, .uniform "A" .scalar, .uniform "B" .scalar, .iterate 0 3,
      .negate]
    [⟨1, "Output", 0, "Input"⟩, ⟨2, "Output", 1, "Input1"⟩, ⟨3, "Output", 1, "Input2"⟩,
      ⟨1, "Output", 4, "Initial"⟩, ⟨4, "Output", 5, "Input"⟩, ⟨5, "Output", 4, "Input"⟩]

/-- The loop can be removed, with its body left over. -/
theorem compile_removeNodes_uselessLoop :
    uselessLoop.HasDistinctPins ∧ uselessLoop.validate = .ok () ∧
      ¬ uselessLoop.IsLive (Graph.nodeNumber 4) ∧ (compile {} uselessLoop).isOk ∧
      compile {} (uselessLoop.removeNodes [Graph.nodeNumber 4]) = compile {} uselessLoop := by
  have hpins : uselessLoop.HasDistinctPins := by decide +kernel
  have hvalid : uselessLoop.validate = .ok () := by decide +kernel
  have hmem : Graph.nodeNumber 4 ∈ [Graph.nodeNumber 4, Graph.nodeNumber 5] := List.mem_cons_self
  have hdead : ¬ uselessLoop.IsLive (Graph.nodeNumber 4) :=
    Graph.not_isLive_of_closed (by decide +kernel) (by decide +kernel) hmem
  have hids : ∀ id ∈ [Graph.nodeNumber 4], ¬ uselessLoop.IsLive id :=
    List.forall_mem_singleton.mpr hdead
  exact ⟨hpins, hvalid, hdead, by decide +kernel,
    compile_removeNodes {} (Graph.built_numbered _ _) hpins hvalid hids⟩

end Removal

end ShaderGraph
