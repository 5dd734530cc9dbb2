import Mathlib.Data.List.Forall2
import Mathlib.Data.List.Perm.Basic
import ShaderGraph.Proofs.Emission.Evaluation
import ShaderGraph.Proofs.Graph.Correspondence
import ShaderGraph.Proofs.Graph.Validity

/-!
# Graphs of one structure

Two graphs are alike if they store corresponding nodes and connections, in whatever order. Alike graphs
correspond, and they are valid under the same conditions.
-/

namespace ShaderGraph

/-! ## Reordered lists -/

section Reordered

variable {α β : Type} {P : α → β → Prop} {as : List α} {bs : List β}

/-- The elements of the first list are related to those of the second one in some order. -/
def Reordered (P : α → β → Prop) (as : List α) (bs : List β) : Prop :=
  ∃ cs, List.Forall₂ P as cs ∧ cs.Perm bs

namespace Reordered

theorem flip (h : Reordered P as bs) : Reordered (fun b a ↦ P a b) bs as := by
  have hcomp : Relation.Comp (List.Forall₂ P) List.Perm as bs := h
  rw [List.forall₂_comp_perm_eq_perm_comp_forall₂] at hcomp
  obtain ⟨ds, hperm, hrelated⟩ := hcomp
  exact ⟨ds, hrelated.flip, hperm.symm⟩

theorem length_eq (h : Reordered P as bs) : bs.length = as.length := by
  obtain ⟨cs, hrelated, hperm⟩ := h
  rw [← hperm.length_eq, hrelated.length_eq]

theorem exists_mem {a : α} (h : Reordered P as bs) (ha : a ∈ as) : ∃ b ∈ bs, P a b := by
  obtain ⟨cs, hrelated, hperm⟩ := h
  obtain ⟨c, hc, hac⟩ := exists_of_mem_left hrelated ha
  exact ⟨c, hperm.mem_iff.mp hc, hac⟩

theorem filter {p : α → Bool} {q : β → Bool} (h : Reordered P as bs)
    (hpq : ∀ a b, P a b → q b = p a) : Reordered P (as.filter p) (bs.filter q) := by
  obtain ⟨cs, hrelated, hperm⟩ := h
  have hkept := List.rel_filter (fun a b hab ↦ Bool.eq_iff_iff.mp (hpq a b hab).symm) hrelated
  exact ⟨cs.filter q, hkept, hperm.filter q⟩

/-- A list related to a single element. -/
theorem singleton {a : α} (h : Reordered P [a] bs) : ∃ b, bs = [b] ∧ P a b := by
  obtain ⟨cs, hrelated, hperm⟩ := h
  cases hrelated with
  | cons hab hrest =>
    cases hrest
    exact ⟨_, (List.singleton_perm.mp hperm).symm, hab⟩

end Reordered

end Reordered

/-! ## Likeness -/

/-- Connections that join corresponding pins. -/
structure Matching.Connections (M : Matching) (c d : Connection) : Prop where
  fromNode : M.node c.fromNode d.fromNode
  fromPin : M.pin c.fromPin d.fromPin
  toNode : M.node c.toNode d.toNode
  toPin : M.pin c.toPin d.toPin

/-- Graphs that store corresponding nodes and connections. The nodes that write the attributes of
vertices are stored in the same order. -/
structure Graph.Alike (M : Matching) (g g' : Graph) : Prop where
  nodesApart : Faithful M.node
  pinsApart : Faithful M.pin
  nodes : Reordered M.Nodes g.nodes.values g'.nodes.values
  connections : Reordered M.Connections g.connections.values g'.connections.values
  vertexOutputs : List.Forall₂ M.Nodes (g.nodesOfKind NodeKind.isVertexOutput)
    (g'.nodesOfKind NodeKind.isVertexOutput)

namespace Graph

variable {M : Matching} {g g' : Graph} {a b : NodeId} {p q : PinId} {n m : Node}
  {c d : Connection}

namespace Alike

theorem flip (h : g.Alike M g') : g'.Alike M.flip g where
  nodesApart := h.nodesApart.flip
  pinsApart := h.pinsApart.flip
  nodes := by
    obtain ⟨ms, hrelated, hperm⟩ := h.nodes.flip
    exact ⟨ms, hrelated.imp fun _ _ hnm ↦ hnm.flip, hperm⟩
  connections := by
    obtain ⟨ds, hrelated, hperm⟩ := h.connections.flip
    exact ⟨ds, hrelated.imp fun _ _ hcd ↦ ⟨hcd.fromNode, hcd.fromPin, hcd.toNode, hcd.toPin⟩, hperm⟩
  vertexOutputs := List.Forall₂.flip <| h.vertexOutputs.imp fun _ _ hnm ↦ hnm.flip

variable (hg : g.Consistent) (hg' : g'.Consistent) (h : g.Alike M g')

include hg hg' h

theorem exists_node? (hab : M.node a b) (hn : g.node? a = some n) :
    ∃ m, g'.node? b = some m ∧ M.Nodes n m := by
  obtain ⟨m, hm, hnm⟩ := h.nodes.exists_mem (OrderedMap.mem_values_of_get? hn)
  have hid : m.id = b := (h.nodesApart _ _ _ _ hnm.id hab).mp (hg.nodes a n hn)
  exact ⟨m, hid ▸ hg'.mem_nodes_iff.mp hm, hnm⟩

theorem exists_driver? (hpq : M.pin p q) (hc : g.driver? p = some c) :
    ∃ d, g'.driver? q = some d ∧ M.Connections c d := by
  obtain ⟨hmem, hto⟩ := hg.driver?_eq_some_iff.mp hc
  obtain ⟨d, hd, hcd⟩ := h.connections.exists_mem hmem
  have hto' : d.toPin = q := (h.pinsApart _ _ _ _ hcd.toPin hpq).mp hto
  exact ⟨d, hg'.driver?_eq_some_iff.mpr ⟨hd, hto'⟩, hcd⟩

/-- Alike graphs correspond. -/
theorem corresponds (hloose : ¬ M.strict) : g.Corresponds M g' where
  nodesApart := h.nodesApart
  pinsApart := h.pinsApart
  nodes a b hab := by
    cases hn : g.node? a with
    | some n =>
      obtain ⟨m, hm, hnm⟩ := h.exists_node? hg hg' hab hn
      rw [hm]
      exact .some hnm
    | none =>
      cases hm : g'.node? b with
      | none => exact .none
      | some m =>
        obtain ⟨n, hn', -⟩ := h.flip.exists_node? hg' hg hab hm
        cases hn.symm.trans hn'
  drivers p q hpq := by
    cases hc : g.driver? p with
    | some c =>
      obtain ⟨d, hd, hcd⟩ := h.exists_driver? hg hg' hpq hc
      rw [hd]
      exact .some ⟨hcd.fromNode, hcd.fromPin⟩
    | none =>
      cases hd : g'.driver? q with
      | none => exact .none
      | some d =>
        obtain ⟨c, hc', -⟩ := h.flip.exists_driver? hg' hg hpq hd
        cases hc.symm.trans hc'
  sameNodes hstrict := absurd hstrict hloose
  samePins hstrict := absurd hstrict hloose

end Alike

/-! ## Validity -/

namespace Corresponds

variable (h : g.Corresponds M g')

include h

theorem joins (hcd : M.Connections c d) : g'.joins d = g.joins c := by
  have hpins {a b : NodeId} {p q : PinId} (hab : M.node a b) (hpq : M.pin p q) :
      Option.Rel M.Pins ((g.node? a).bind (·.pin? p)) ((g'.node? b).bind (·.pin? q)) := by
    have hnodes := h.nodes a b hab
    generalize g.node? a = n? at hnodes ⊢
    generalize g'.node? b = m? at hnodes ⊢
    cases hnodes with
    | none => exact .none
    | some hnm => exact hnm.pin? h.pinsApart hpq
  have hsource := hpins hcd.fromNode hcd.fromPin
  have htarget := hpins hcd.toNode hcd.toPin
  unfold Graph.joins
  generalize (g.node? c.fromNode).bind (·.pin? c.fromPin) = source at hsource ⊢
  generalize (g'.node? d.fromNode).bind (·.pin? d.fromPin) = source' at hsource ⊢
  generalize (g.node? c.toNode).bind (·.pin? c.toPin) = target at htarget ⊢
  generalize (g'.node? d.toNode).bind (·.pin? d.toPin) = target' at htarget ⊢
  cases hsource with
  | none => rfl
  | some hsource =>
    cases htarget with
    | none => rfl
    | some htarget =>
      simp only [Pin.canConnect, hsource.direction, htarget.direction]

theorem isLoopNode (hab : M.node a b) : g'.isLoopNode b = g.isLoopNode a := by
  have hnodes := h.nodes a b hab
  unfold Graph.isLoopNode
  generalize g.node? a = n? at hnodes ⊢
  generalize g'.node? b = m? at hnodes ⊢
  cases hnodes with
  | none => rfl
  | some hnm => simp only [Option.any_some, hnm.kind]

end Corresponds

namespace Alike

variable (h : g.Alike M g') (hcorresponds : g.Corresponds M g')

include h hcorresponds

/-- Steps of the second graph are steps of the first one. -/
theorem exists_precedes {b' : NodeId} (hstep : g'.Precedes b b') :
    ∃ a a', M.node a b ∧ M.node a' b' ∧ g.Precedes a a' := by
  obtain ⟨d, hd, rfl, rfl, hloop⟩ := precedes_iff.mp hstep
  obtain ⟨c, hc, hcd⟩ := h.connections.flip.exists_mem hd
  rw [hcorresponds.isLoopNode hcd.fromNode] at hloop
  exact ⟨c.fromNode, c.toNode, hcd.fromNode, hcd.toNode, precedes_iff.mpr ⟨c, hc, rfl, rfl, hloop⟩⟩

theorem exists_transGen {b' : NodeId} (hpath : Relation.TransGen g'.Precedes b b') :
    ∃ a a', M.node a b ∧ M.node a' b' ∧ Relation.TransGen g.Precedes a a' := by
  induction hpath with
  | single hstep =>
    obtain ⟨a, a', ha, ha', hstep⟩ := h.exists_precedes hcorresponds hstep
    exact ⟨a, a', ha, ha', .single hstep⟩
  | tail _ hstep ih =>
    obtain ⟨a, middle, ha, hmiddle, hpath⟩ := ih
    obtain ⟨middle', a', hmiddle', ha', hstep⟩ := h.exists_precedes hcorresponds hstep
    obtain rfl : middle = middle' := (h.nodesApart _ _ _ _ hmiddle hmiddle').mpr rfl
    exact ⟨a, a', ha, ha', hpath.tail hstep⟩

/-- A graph that is like a valid one is valid. -/
theorem validate (hvalid : g.validate = .ok ()) : g'.validate = .ok () := by
  rw [validate_eq_ok_iff] at hvalid ⊢
  refine ⟨fun d hd ↦ ?_, fun b hcycle ↦ ?_⟩
  · obtain ⟨c, hc, hcd⟩ := h.connections.flip.exists_mem hd
    rw [hcorresponds.joins hcd]
    exact hvalid.1 c hc
  · obtain ⟨a, a', ha, ha', hpath⟩ := h.exists_transGen hcorresponds hcycle
    obtain rfl : a = a' := (h.nodesApart _ _ _ _ ha ha').mpr rfl
    exact hvalid.2 a hpath

omit hcorresponds in
theorem exists_terminal (hn : g.terminal = .ok n) : ∃ m, g'.terminal = .ok m ∧ M.Nodes n m := by
  have hnodes : Reordered M.Nodes (g.nodesOfKind NodeKind.isPixelOutput)
      (g'.nodesOfKind NodeKind.isPixelOutput) :=
    h.nodes.filter fun n m hnm ↦ by rw [hnm.kind]
  rw [nodesOfKind_of_terminal hn] at hnodes
  obtain ⟨m, hm, hnm⟩ := hnodes.singleton
  exact ⟨m, by rw [terminal, hm], hnm⟩

end Alike

end Graph

end ShaderGraph
