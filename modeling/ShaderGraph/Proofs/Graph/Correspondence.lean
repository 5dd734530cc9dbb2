import Mathlib.Data.Option.Basic
import ShaderGraph.Emission.Resource
import ShaderGraph.Proofs.Data.Maps
import ShaderGraph.Proofs.Termination.Searches

/-!
# Corresponding graphs

Two graphs correspond if corresponding nodes are of one kind and have corresponding pins, which are
driven by corresponding outputs. Nodes that correspond to none do not matter, nor do names of nodes. The
searches find corresponding outputs in corresponding graphs, in the same order.
-/

namespace ShaderGraph

/-- A correspondence between the nodes and the pins of two graphs, given by their identifiers. -/
structure Matching where
  node : NodeId → NodeId → Prop
  pin : PinId → PinId → Prop
  /-- Whether what corresponds is the same. -/
  strict : Prop

namespace Matching

variable {M : Matching} {n m : Node}

/-- Pins of one name that have a value under the same conditions. -/
structure Pins (M : Matching) (p q : Pin) : Prop where
  id : M.pin p.id q.id
  name : q.name = p.name
  direction : q.direction = p.direction
  isOptional : q.isOptional = p.isOptional
  default? : q.default? = p.default?

structure Nodes (M : Matching) (n m : Node) : Prop where
  id : M.node n.id m.id
  kind : m.kind = n.kind
  inputs : List.Forall₂ M.Pins n.inputs m.inputs
  outputs : List.Forall₂ M.Pins n.outputs m.outputs
  same : M.strict → m = n

structure Outputs (M : Matching) (o o' : OutputRef) : Prop where
  node : M.node o.node o'.node
  pin : M.pin o.pin o'.pin

/-- Searches for a frontier that have met corresponding outputs. -/
structure Searches (M : Matching) (s t : Graph.FrontierSearch) : Prop where
  seen : List.Forall₂ M.Outputs s.seen t.seen
  found : List.Forall₂ M.Outputs s.found t.found
  verdicts : List.Forall₂ (Entry M.node Eq) s.verdicts t.verdicts

theorem Nodes.input? (h : M.Nodes n m) (name : String) :
    Option.Rel M.Pins (n.input? name) (m.input? name) :=
  find?_related h.inputs fun p q hpq ↦ by rw [hpq.name]

theorem Nodes.isNone_input? (h : M.Nodes n m) (name : String) :
    (m.input? name).isNone = (n.input? name).isNone := by
  have hpins := h.input? name
  generalize n.input? name = p? at hpins ⊢
  generalize m.input? name = q? at hpins ⊢
  cases hpins <;> rfl

theorem Nodes.output? (h : M.Nodes n m) (name : String) :
    Option.Rel M.Pins (n.output? name) (m.output? name) :=
  find?_related h.outputs fun p q hpq ↦ by rw [hpq.name]

/-- A pin is found in corresponding nodes under corresponding identifiers. -/
theorem Nodes.pin? (h : M.Nodes n m) (hapart : Faithful M.pin) {p q : PinId} (hpq : M.pin p q) :
    Option.Rel M.Pins (n.pin? p) (m.pin? q) :=
  find?_related (List.rel_append h.inputs h.outputs) fun _ _ hab ↦
    decide_eq_decide.mpr (hapart _ _ _ _ hab.id hpq).symm

/-- The correspondence the other way round. -/
def flip (M : Matching) : Matching where
  node b a := M.node a b
  pin q p := M.pin p q
  strict := M.strict

theorem Nodes.flip (h : M.Nodes n m) : M.flip.Nodes m n :=
  have hpins {ps qs : List Pin} (h : List.Forall₂ M.Pins ps qs) :
      List.Forall₂ M.flip.Pins qs ps :=
    List.Forall₂.flip <| h.imp fun _ _ hpq ↦
      ⟨hpq.id, hpq.name.symm, hpq.direction.symm, hpq.isOptional.symm, hpq.default?.symm⟩
  ⟨h.id, h.kind.symm, hpins h.inputs, hpins h.outputs, fun hstrict ↦ (h.same hstrict).symm⟩

theorem Nodes.refl (strict : Prop) (n : Node) : Nodes ⟨Eq, Eq, strict⟩ n n :=
  have hpins (ps : List Pin) : List.Forall₂ (Pins ⟨Eq, Eq, strict⟩) ps ps :=
    List.forall₂_same.mpr fun _ _ ↦ ⟨rfl, rfl, rfl, rfl, rfl⟩
  ⟨rfl, rfl, hpins _, hpins _, fun _ ↦ rfl⟩

end Matching

/-- Nodes and pins that correspond are told apart in one graph as in the other one. The same nodes are
stored in both, and the same pins are driven. -/
structure Graph.Corresponds (M : Matching) (g g' : Graph) : Prop where
  nodesApart : Faithful M.node
  pinsApart : Faithful M.pin
  nodes : ∀ a b, M.node a b → Option.Rel M.Nodes (g.node? a) (g'.node? b)
  drivers : ∀ p q, M.pin p q →
    Option.Rel (fun c d ↦ M.Outputs c.source d.source) (g.driver? p) (g'.driver? q)
  sameNodes : M.strict → ∀ a b, M.node a b → b = a
  samePins : M.strict → ∀ p q, M.pin p q → q = p

namespace Graph

/-- A graph corresponds to itself. -/
theorem Corresponds.refl (g : Graph) (strict : Prop) : g.Corresponds ⟨Eq, Eq, strict⟩ g where
  nodesApart := faithful_eq
  pinsApart := faithful_eq
  nodes a b hab := by
    obtain rfl : a = b := hab
    cases h : g.node? a with
    | none => exact .none
    | some n => exact .some (.refl strict n)
  drivers p q hpq := by
    obtain rfl : p = q := hpq
    cases g.driver? p with
    | none => exact .none
    | some c => exact .some ⟨rfl, rfl⟩
  sameNodes _ a b hab := hab.symm
  samePins _ p q hpq := hpq.symm

namespace Corresponds

variable {M : Matching} {g g' : Graph} {n m : Node} {p q : PinId} (h : g.Corresponds M g')

include h

theorem outputsApart : Faithful M.Outputs := by
  rintro ⟨a, p⟩ ⟨b, q⟩ ⟨a', p'⟩ ⟨b', q'⟩ ho ho'
  rw [OutputRef.mk.injEq, OutputRef.mk.injEq, h.nodesApart _ _ _ _ ho.node ho'.node,
    h.pinsApart _ _ _ _ ho.pin ho'.pin]

/-! ## Sources -/

theorem sourcesFrom (depth : Nat) {found found' : List OutputRef}
    (hfound : List.Forall₂ M.Outputs found found') (hpin : M.pin p q) :
    List.Forall₂ M.Outputs (g.sourcesFrom depth found p) (g'.sourcesFrom depth found' q) := by
  induction depth generalizing found found' p q with
  | zero => exact hfound
  | succ depth ih =>
    rw [Graph.sourcesFrom, Graph.sourcesFrom]
    have hdrivers := h.drivers p q hpin
    generalize g.driver? p = c? at hdrivers ⊢
    generalize g'.driver? q = d? at hdrivers ⊢
    cases hdrivers with
    | none => exact hfound
    | @some c d hcd =>
      dsimp only
      by_cases hmet : c.source ∈ found
      · rw [if_pos hmet, if_pos ((mem_related h.outputsApart hfound hcd).mpr hmet)]
        exact hfound
      · rw [if_neg hmet, if_neg fun hd ↦ hmet ((mem_related h.outputsApart hfound hcd).mp hd)]
        have hnext : List.Forall₂ M.Outputs (found ++ [c.source]) (found' ++ [d.source]) :=
          List.rel_append hfound (.cons hcd .nil)
        have hnodes := h.nodes c.fromNode d.fromNode hcd.node
        generalize g.node? c.fromNode = n? at hnodes ⊢
        generalize g'.node? d.fromNode = m? at hnodes ⊢
        cases hnodes with
        | none => exact hnext
        | @some n m hnm =>
          dsimp only
          rw [hnm.kind]
          split
          · exact hnext
          · exact List.rel_foldl (fun _ _ hfound _ _ hpq ↦ ih hfound hpq.id) hnext hnm.inputs

theorem sources (hn : M.Nodes n m) (pin : String) :
    List.Forall₂ M.Outputs (g.sources n pin) (g'.sources m pin) := by
  unfold Graph.sources
  have hpins := hn.input? pin
  generalize n.input? pin = p? at hpins ⊢
  generalize m.input? pin = q? at hpins ⊢
  cases hpins with
  | none => exact .nil
  | @some p q hpq =>
    -- Both searches are as good as one of a depth that suffices for either graph.
    let depth := max g.connections.size g'.connections.size + 1
    have hdepth : g.sourcesFrom g.searchDepth [] p.id = g.sourcesFrom depth [] p.id :=
      sourcesFrom_eq_of_lt (Nat.lt_succ_self _) (by omega)
    have hdepth' : g'.sourcesFrom g'.searchDepth [] q.id = g'.sourcesFrom depth [] q.id :=
      sourcesFrom_eq_of_lt (Nat.lt_succ_self _) (by omega)
    dsimp only
    rw [hdepth, hdepth']
    exact h.sourcesFrom depth .nil hpq.id

theorem commonOutputs (hn : M.Nodes n m) (pins : List String) :
    List.Forall₂ M.Outputs (g.commonOutputs n pins) (g'.commonOutputs m pins) := by
  cases pins with
  | nil => exact .nil
  | cons pin pins =>
    refine List.rel_filter (fun o o' ho ↦ ?_) (h.sources hn pin)
    simp only [List.all_map, List.all_eq_true, Function.comp_apply, decide_eq_true_eq]
    exact forall₂_congr fun pin _ ↦ (mem_related h.outputsApart (h.sources hn pin) ho).symm

/-! ## Dependence -/

theorem suppliers {id id' : NodeId} (hid : M.node id id') :
    List.Forall₂ M.node (g.suppliers id) (g'.suppliers id') := by
  unfold Graph.suppliers
  have hnodes := h.nodes id id' hid
  generalize g.node? id = n? at hnodes ⊢
  generalize g'.node? id' = m? at hnodes ⊢
  cases hnodes with
  | none => exact .nil
  | @some n m hnm =>
    dsimp only
    rw [hnm.kind]
    split
    · exact .nil
    · refine List.rel_filterMap (fun p q hpq ↦ ?_) hnm.inputs
      have hdrivers := h.drivers p.id q.id hpq.id
      generalize g.driver? p.id = c? at hdrivers ⊢
      generalize g'.driver? q.id = d? at hdrivers ⊢
      cases hdrivers with
      | none => exact .none
      | some hcd => exact .some hcd.node

/-- Searches for a dependence that come to the same verdicts. -/
theorem dependsOn {target target' : NodeId} (htarget : M.node target target') (depth : Nat)
    {path path' : List NodeId} (hpath : List.Forall₂ M.node path path') {id id' : NodeId}
    (hid : M.node id id') {verdicts verdicts' : Verdicts}
    (hverdicts : List.Forall₂ (Entry M.node Eq) verdicts verdicts') :
    ((g'.dependsOn target' depth path' id').run verdicts').1 =
        ((g.dependsOn target depth path id).run verdicts).1 ∧
      List.Forall₂ (Entry M.node Eq) ((g.dependsOn target depth path id).run verdicts).2
        ((g'.dependsOn target' depth path' id').run verdicts').2 := by
  induction depth generalizing path path' id id' verdicts verdicts' with
  | zero => exact ⟨rfl, hverdicts⟩
  | succ depth ih =>
    rw [run_dependsOn_succ, run_dependsOn_succ]
    by_cases htarget' : id = target
    · rw [if_pos htarget', if_pos ((h.nodesApart _ _ _ _ hid htarget).mp htarget')]
      exact ⟨rfl, hverdicts⟩
    · rw [if_neg htarget', if_neg fun hd ↦ htarget' ((h.nodesApart _ _ _ _ hid htarget).mpr hd)]
      have hknown := lookup_related h.nodesApart hverdicts hid
      generalize verdicts.lookup id = known at hknown ⊢
      generalize verdicts'.lookup id' = known' at hknown ⊢
      cases hknown with
      | some heq => exact ⟨heq.symm, hverdicts⟩
      | none =>
        dsimp only
        by_cases hmet : id ∈ path
        · rw [if_pos hmet, if_pos ((mem_related h.nodesApart hpath hid).mpr hmet)]
          exact ⟨rfl, hverdicts⟩
        · rw [if_neg hmet, if_neg fun hd ↦ hmet ((mem_related h.nodesApart hpath hid).mp hd)]
          rw [verdict_eq_anyM, verdict_eq_anyM]
          have hverdict := anyM_related (h.suppliers hid)
            (fun _ _ hsupplier _ _ hst ↦ ih (.cons hid hpath) hsupplier hst) hverdicts
          exact ⟨hverdict.1, .cons ⟨hid, hverdict.1.symm⟩ hverdict.2⟩

theorem dependsOn_start {target target' id id' : NodeId} (htarget : M.node target target')
    (hid : M.node id id') {verdicts verdicts' : Verdicts}
    (hverdicts : List.Forall₂ (Entry M.node Eq) verdicts verdicts') :
    ((g'.dependsOn target' (g'.nodes.size + 2) [] id').run verdicts').1 =
        ((g.dependsOn target (g.nodes.size + 2) [] id).run verdicts).1 ∧
      List.Forall₂ (Entry M.node Eq)
        ((g.dependsOn target (g.nodes.size + 2) [] id).run verdicts).2
        ((g'.dependsOn target' (g'.nodes.size + 2) [] id').run verdicts').2 := by
  -- Both verdicts are as good as those of a search that is deep enough in either graph.
  let deep := max g.nodes.size g'.nodes.size + 1
  have hdeep : g.dependsOn target (g.nodes.size + 2) [] id = g.dependsOn target deep [] id :=
    dependsOn_eq_of_lt (by omega) (by omega)
  have hdeep' : g'.dependsOn target' (g'.nodes.size + 2) [] id' = g'.dependsOn target' deep [] id' :=
    dependsOn_eq_of_lt (by omega) (by omega)
  rw [hdeep, hdeep']
  exact h.dependsOn htarget deep .nil hid hverdicts

/-! ## Frontiers -/

theorem frontierFrom {target target' : NodeId} (htarget : M.node target target') (depth : Nat)
    (hpin : M.pin p q) {s t : FrontierSearch} (hst : M.Searches s t) :
    M.Searches ((g.frontierFrom target depth p).run s).2
      ((g'.frontierFrom target' depth q).run t).2 := by
  induction depth generalizing p q s t with
  | zero => exact hst
  | succ depth ih =>
    rw [run_frontierFrom_succ, run_frontierFrom_succ]
    have hdrivers := h.drivers p q hpin
    generalize g.driver? p = c? at hdrivers ⊢
    generalize g'.driver? q = d? at hdrivers ⊢
    cases hdrivers with
    | none => exact hst
    | @some c d hcd =>
      dsimp only
      by_cases hmet : c.source ∈ s.seen
      · rw [if_pos hmet, if_pos ((mem_related h.outputsApart hst.seen hcd).mpr hmet)]
        exact hst
      rw [if_neg hmet, if_neg fun hd ↦ hmet ((mem_related h.outputsApart hst.seen hcd).mp hd)]
      have hseen : List.Forall₂ M.Outputs (c.source :: s.seen) (d.source :: t.seen) :=
        .cons hcd hst.seen
      have hnode : M.node c.fromNode d.fromNode := hcd.node
      have htargets := h.nodesApart _ _ _ _ hnode htarget
      by_cases hreached : c.fromNode = target
      · rw [if_pos hreached, if_pos (htargets.mp hreached)]
        exact ⟨hseen, hst.found, hst.verdicts⟩
      rw [if_neg hreached, if_neg fun hd ↦ hreached (htargets.mpr hd)]
      have hdepends := h.dependsOn_start htarget hnode hst.verdicts
      cases hrun : (g.dependsOn target (g.nodes.size + 2) [] c.fromNode).run s.verdicts with
      | mk depends verdicts =>
        cases hrun' : (g'.dependsOn target' (g'.nodes.size + 2) [] d.fromNode).run t.verdicts with
        | mk depends' verdicts' =>
          rw [hrun, hrun'] at hdepends
          obtain ⟨rfl, hverdicts⟩ := hdepends
          cases depends' with
          | false =>
            exact ⟨hseen, List.rel_append hst.found (.cons hcd .nil), hverdicts⟩
          | true =>
            simp only [if_pos]
            have hnodes := h.nodes _ _ hnode
            generalize g.node? c.fromNode = n? at hnodes ⊢
            generalize g'.node? d.fromNode = m? at hnodes ⊢
            cases hnodes with
            | none => exact ⟨hseen, hst.found, hverdicts⟩
            | some hnm =>
              exact forM_related hnm.inputs (fun _ _ hpq _ _ hst ↦ ih hpq.id hst)
                ⟨hseen, hst.found, hverdicts⟩

theorem frontier (hn : M.Nodes n m) (pins : List String) :
    List.Forall₂ M.Outputs (g.frontier n pins) (g'.frontier m pins) := by
  -- Both searches are as good as one of a depth that suffices for either graph.
  let depth := max g.connections.size g'.connections.size + 1
  rw [frontier_eq_of_lt (d := depth) (by omega), frontier_eq_of_lt (d := depth) (by omega)]
  refine (forM_related (P := Eq) (S := M.Searches) (List.forall₂_same.mpr fun _ _ ↦ rfl) ?_
    ⟨.nil, .nil, .nil⟩).found
  rintro pin _ rfl s t hst
  have hpins := hn.input? pin
  generalize n.input? pin = p? at hpins ⊢
  generalize m.input? pin = q? at hpins ⊢
  cases hpins with
  | none => exact hst
  | some hpq => exact h.frontierFrom hn.id depth hpq.id hst

/-! ## Constant indices -/

theorem constantIndex? (hn : M.Nodes n m) :
    Emitter.constantIndex? g' m = Emitter.constantIndex? g n := by
  unfold Emitter.constantIndex?
  have hpins := hn.input? "Index"
  generalize n.input? "Index" = p? at hpins ⊢
  generalize m.input? "Index" = q? at hpins ⊢
  cases hpins with
  | none => rfl
  | @some p q hpq =>
    have hdrivers := h.drivers p.id q.id hpq.id
    simp only [Option.bind_eq_bind, Option.bind_some]
    generalize g.driver? p.id = c? at hdrivers ⊢
    generalize g'.driver? q.id = d? at hdrivers ⊢
    cases hdrivers with
    | none => rfl
    | @some c d hcd =>
      have hnodes := h.nodes c.fromNode d.fromNode hcd.node
      simp only [Option.bind_some]
      generalize g.node? c.fromNode = n? at hnodes ⊢
      generalize g'.node? d.fromNode = m? at hnodes ⊢
      cases hnodes with
      | none => rfl
      | some hnm =>
        simp only [Option.bind_some]
        rw [hnm.kind]

end Corresponds

end Graph

end ShaderGraph
