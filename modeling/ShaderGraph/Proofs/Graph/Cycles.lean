import ShaderGraph.Proofs.Graph.Validity

/-!
# What validation finds

Validation names the first connection that does not lead from an output of a stored node to an input of
a stored node. In a graph without such connections it names a node of a cycle that holds no loop, exactly
if there is such a cycle.
-/

namespace ShaderGraph

namespace Graph

variable {g : Graph} {a b id : NodeId} {c : Connection} {cs : List Connection}

/-! ## Connections -/

/-- The node is stored, and the pin that the identifier names on it has the direction. -/
def HasPin (g : Graph) (id : NodeId) (pin : PinId) (direction : PinDirection) : Prop :=
  ∃ n p, g.node? id = some n ∧ n.pin? pin = some p ∧ p.direction = direction

/-- The connection leads from an output of a stored node to an input of a stored node. -/
structure Anchors (g : Graph) (c : Connection) : Prop where
  source : g.HasPin c.fromNode c.fromPin .output
  target : g.HasPin c.toNode c.toPin .input

theorem joins_iff_anchors : g.joins c = true ↔ g.Anchors c := by
  constructor
  · intro h
    obtain ⟨n, p, m, q, hn, hp, hm, hq, hconnect⟩ := exists_of_joins h
    simp only [Pin.canConnect, Bool.and_eq_true, decide_eq_true_eq] at hconnect
    exact ⟨⟨n, p, hn, hp, hconnect.1⟩, ⟨m, q, hm, hq, hconnect.2⟩⟩
  · rintro ⟨⟨n, p, hn, hp, houtput⟩, ⟨m, q, hm, hq, hinput⟩⟩
    simp [joins, hn, hp, hm, hq, Pin.canConnect, houtput, hinput]

/-! ## Walks -/

/-- Stored connections that lead from the first node to the second, each from where the one before it
ends. -/
inductive IsWalk (g : Graph) : NodeId → List Connection → NodeId → Prop
  | single {c : Connection} (hc : c ∈ g.connections.values) : g.IsWalk c.fromNode [c] c.toNode
  | cons {c : Connection} {cs : List Connection} {b : NodeId} (hc : c ∈ g.connections.values)
    (h : g.IsWalk c.toNode cs b) : g.IsWalk c.fromNode (c :: cs) b

/-- The node is stored and no loop. -/
def IsPlainNode (g : Graph) (id : NodeId) : Prop :=
  ∃ n, g.node? id = some n ∧ n.kind.isLoop = false

/-- Connections that lead from a node back to it, through no node twice and through no loop. -/
structure IsPlainCycle (g : Graph) (id : NodeId) (cs : List Connection) : Prop where
  walk : g.IsWalk id cs id
  distinct : (cs.map Connection.fromNode).Nodup
  plain : ∀ c ∈ cs, g.IsPlainNode c.fromNode

/-- A walk goes on to its end from each of its nodes. -/
theorem IsWalk.suffix (h : g.IsWalk a cs b) (hid : id ∈ cs.map Connection.fromNode) :
    ∃ rest, rest <:+ cs ∧ g.IsWalk id rest b := by
  induction h with
  | @single c hc =>
    obtain rfl : id = c.fromNode := by simpa using hid
    exact ⟨[c], List.suffix_rfl, .single hc⟩
  | @cons c cs b hc h ih =>
    rw [List.map_cons, List.mem_cons] at hid
    obtain rfl | hid := hid
    · exact ⟨c :: cs, List.suffix_rfl, .cons hc h⟩
    · obtain ⟨rest, hrest, hwalk⟩ := ih hid
      exact ⟨rest, hrest.trans (List.suffix_cons c cs), hwalk⟩

/-- A walk can be cut short until it comes through no node twice. -/
theorem IsWalk.exists_distinct (h : g.IsWalk a cs b) :
    ∃ cs', cs' ⊆ cs ∧ g.IsWalk a cs' b ∧ (cs'.map Connection.fromNode).Nodup := by
  induction h with
  | @single c hc => exact ⟨[c], List.Subset.refl _, .single hc, by simp⟩
  | @cons c cs b hc h ih =>
    obtain ⟨cs', hsubset, hwalk, hdistinct⟩ := ih
    by_cases hmet : c.fromNode ∈ cs'.map Connection.fromNode
    · obtain ⟨rest, hrest, hwalk'⟩ := hwalk.suffix hmet
      refine ⟨rest, ?_, hwalk', hdistinct.sublist (hrest.sublist.map _)⟩
      calc rest ⊆ cs' := hrest.subset
        _ ⊆ cs := hsubset
        _ ⊆ c :: cs := List.subset_cons_self c cs
    · refine ⟨c :: cs', List.cons_subset_cons c hsubset, .cons hc hwalk, ?_⟩
      rw [List.map_cons, List.nodup_cons]
      exact ⟨hmet, hdistinct⟩

/-- The steps of the search are the connections that leave no loop. -/
theorem exists_walk_of_transGen (h : Relation.TransGen g.Precedes a b) :
    ∃ cs, g.IsWalk a cs b ∧ ∀ c ∈ cs, g.isLoopNode c.fromNode = false := by
  induction h using Relation.TransGen.head_induction_on with
  | single hstep =>
    obtain ⟨c, hc, rfl, rfl, hloop⟩ := precedes_iff.mp hstep
    exact ⟨[c], .single hc, by simpa using hloop⟩
  | head hstep _ ih =>
    obtain ⟨c, hc, rfl, rfl, hloop⟩ := precedes_iff.mp hstep
    obtain ⟨cs, hwalk, hplain⟩ := ih
    exact ⟨c :: cs, .cons hc hwalk, List.forall_mem_cons.mpr ⟨by simpa using hloop, hplain⟩⟩

theorem IsWalk.transGen (h : g.IsWalk a cs b) (hplain : ∀ c ∈ cs, g.isLoopNode c.fromNode = false) :
    Relation.TransGen g.Precedes a b := by
  induction h with
  | @single c hc =>
    exact .single (precedes_iff.mpr ⟨c, hc, rfl, rfl, by simpa using hplain⟩)
  | @cons c cs b hc _ ih =>
    obtain ⟨hloop, hplain⟩ := List.forall_mem_cons.mp hplain
    exact .head (precedes_iff.mpr ⟨c, hc, rfl, rfl, by simpa using hloop⟩) (ih hplain)

theorem isLoopNode_eq_false (h : g.IsPlainNode id) : g.isLoopNode id = false := by
  obtain ⟨n, hn, hkind⟩ := h
  simp [isLoopNode, hn, hkind]

theorem IsWalk.mem_connections (h : g.IsWalk a cs b) : ∀ c ∈ cs, c ∈ g.connections.values := by
  induction h with
  | single hc => simpa using hc
  | cons hc _ ih => exact List.forall_mem_cons.mpr ⟨hc, ih⟩

/-- Where connections start at stored nodes, a cycle of steps of the search is a cycle that holds no
loop. -/
theorem transGen_iff_isPlainCycle (hanchors : ∀ c ∈ g.connections.values, g.Anchors c) :
    Relation.TransGen g.Precedes id id ↔ ∃ cs, g.IsPlainCycle id cs := by
  constructor
  · intro h
    obtain ⟨cs, hwalk, hplain⟩ := exists_walk_of_transGen h
    obtain ⟨cs', hsubset, hwalk', hdistinct⟩ := hwalk.exists_distinct
    refine ⟨cs', hwalk', hdistinct, fun c hc ↦ ?_⟩
    obtain ⟨n, -, hn, -⟩ := (hanchors c (hwalk'.mem_connections c hc)).source
    have hloop : g.isLoopNode c.fromNode = false := hplain c (hsubset hc)
    exact ⟨n, hn, by simpa [isLoopNode, hn] using hloop⟩
  · rintro ⟨cs, hwalk, -, hplain⟩
    exact hwalk.transGen fun c hc ↦ isLoopNode_eq_false (hplain c hc)

/-! ## Verdicts -/

/-- The connection is the first that does not lead from an output to an input. -/
def IsFirstAstray (g : Graph) (c : Connection) : Prop :=
  ∃ before after, g.connections.values = before ++ c :: after ∧ (∀ c' ∈ before, g.Anchors c') ∧
    ¬ g.Anchors c

theorem find?_eq_some_iff_isFirstAstray :
    (g.connections.values.find? fun c ↦ !g.joins c) = some c ↔ g.IsFirstAstray c := by
  simp only [List.find?_eq_some_iff_append, Bool.not_eq_true', Bool.not_not, ← Bool.not_eq_true,
    joins_iff_anchors, IsFirstAstray]
  constructor
  · rintro ⟨hc, before, after, hvalues, hbefore⟩
    exact ⟨before, after, hvalues, hbefore, hc⟩
  · rintro ⟨before, after, hvalues, hbefore, hc⟩
    exact ⟨hc, before, after, hvalues, hbefore⟩

theorem validate_of_isFirstAstray (h : g.IsFirstAstray c) :
    g.validate = .error (.danglingConnection c.id) := by
  rw [validate, find?_eq_some_iff_isFirstAstray.mpr h]
  rfl

/-- Either a first connection leads astray or none does. -/
theorem exists_isFirstAstray_or :
    (∃ c, g.IsFirstAstray c) ∨ ∀ c ∈ g.connections.values, g.Anchors c := by
  cases hfind : g.connections.values.find? fun c ↦ !g.joins c with
  | some c => exact .inl ⟨c, find?_eq_some_iff_isFirstAstray.mp hfind⟩
  | none =>
    have hjoins : ∀ c ∈ g.connections.values, g.joins c = true := by
      simpa using List.find?_eq_none.mp hfind
    exact .inr fun c hc ↦ joins_iff_anchors.mp (hjoins c hc)

theorem IsFirstAstray.not_forall (h : g.IsFirstAstray c) :
    ¬ ∀ c ∈ g.connections.values, g.Anchors c := by
  obtain ⟨before, after, hvalues, -, hc⟩ := h
  exact fun hall ↦ hc (hall c (by simp [hvalues]))

/-- The error of a graph in which no connection leads astray names a node of a cycle. -/
theorem eq_cycle_of_validate (hanchors : ∀ c ∈ g.connections.values, g.Anchors c) {e : GraphError}
    (h : g.validate = .error e) : ∃ id, e = .cycle id ∧ ∃ cs, g.IsPlainCycle id cs := by
  obtain ⟨c, hc, hjoins, -⟩ | ⟨id, rfl, hcycle⟩ := validate_eq_error h
  · exact absurd (joins_iff_anchors.mpr (hanchors c hc)) hjoins
  · exact ⟨id, rfl, (transGen_iff_isPlainCycle hanchors).mp hcycle⟩

theorem validate_eq_ok_iff_isPlainCycle :
    g.validate = .ok () ↔
      (∀ c ∈ g.connections.values, g.Anchors c) ∧ ¬ ∃ id cs, g.IsPlainCycle id cs := by
  simp only [validate_eq_ok_iff, joins_iff_anchors, IsAcyclic, not_exists]
  refine and_congr_right fun hanchors ↦ forall_congr' fun id ↦ ?_
  rw [transGen_iff_isPlainCycle hanchors, not_exists]

/-- The verdict of a validation on every graph. A dangling connection is reported exactly if it is the
first that does not lead from an output to an input, a cycle exactly if no connection leads astray and
some cycle holds no loop, and the node that is reported lies on such a cycle. All other graphs are
valid. -/
theorem validate_exact (g : Graph) :
    (∀ id, g.validate = .error (.danglingConnection id) ↔ ∃ c, g.IsFirstAstray c ∧ c.id = id) ∧
    ((∃ id, g.validate = .error (.cycle id)) ↔
      (∀ c ∈ g.connections.values, g.Anchors c) ∧ ∃ id cs, g.IsPlainCycle id cs) ∧
    (∀ id, g.validate = .error (.cycle id) → ∃ cs, g.IsPlainCycle id cs) ∧
    (g.validate = .ok () ↔
      (∀ c ∈ g.connections.values, g.Anchors c) ∧ ¬ ∃ id cs, g.IsPlainCycle id cs) := by
  have hok := validate_eq_ok_iff_isPlainCycle (g := g)
  rcases exists_isFirstAstray_or (g := g) with ⟨c, hc⟩ | hanchors
  · have hvalidate := validate_of_isFirstAstray hc
    refine ⟨fun id ↦ ⟨fun h ↦ ⟨c, hc, ?_⟩, ?_⟩, ⟨fun ⟨id, h⟩ ↦ ?_, fun h ↦ ?_⟩, fun id h ↦ ?_, hok⟩
    · rw [hvalidate] at h
      simpa using h
    · rintro ⟨c', hc', rfl⟩
      exact validate_of_isFirstAstray hc'
    · rw [hvalidate] at h
      cases h
    · exact absurd h.1 hc.not_forall
    · rw [hvalidate] at h
      cases h
  · have hcycle {id : NodeId} (h : g.validate = .error (.cycle id)) : ∃ cs, g.IsPlainCycle id cs := by
      obtain ⟨other, heq, hcycle⟩ := eq_cycle_of_validate hanchors h
      cases heq
      exact hcycle
    refine ⟨fun id ↦ ⟨fun h ↦ ?_, ?_⟩, ⟨fun ⟨id, h⟩ ↦ ⟨hanchors, id, hcycle h⟩, fun h ↦ ?_⟩,
      fun id h ↦ hcycle h, hok⟩
    · obtain ⟨other, heq, -⟩ := eq_cycle_of_validate hanchors h
      cases heq
    · rintro ⟨c, hc, -⟩
      exact absurd hanchors hc.not_forall
    · cases hvalidate : g.validate with
      | ok => exact absurd h.2 (hok.mp hvalidate).2
      | error e =>
        obtain ⟨id, rfl, -⟩ := eq_cycle_of_validate hanchors hvalidate
        exact ⟨id, rfl⟩

/-- Two nodes that feed each other, beside a loop that feeds its own body. -/
def tangled : Graph :=
  .numbered [.iterate 0 3, .arithmetic .add, .arithmetic .add, .arithmetic .mul]
    [⟨0, "N", 3, "Input1"⟩, ⟨3, "Output", 0, "Input"⟩, ⟨1, "Output", 2, "Input1"⟩,
      ⟨2, "Output", 1, "Input1"⟩]

theorem validate_exact_tangled :
    tangled.validate = .error (.cycle (nodeNumber 1)) ∧
      ∃ cs, tangled.IsPlainCycle (nodeNumber 1) cs :=
  have hvalidate : tangled.validate = .error (.cycle (nodeNumber 1)) := by decide +kernel
  ⟨hvalidate, (validate_exact tangled).2.2.1 _ hvalidate⟩

end Graph

end ShaderGraph
