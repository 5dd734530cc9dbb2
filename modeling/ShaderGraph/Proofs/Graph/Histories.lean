import ShaderGraph.Proofs.Graph.Validity

/-!
# Histories of graphs

The history of a graph is the sequence of edits that made it from an empty graph. The index of drivers
is kept in three ways, by additions, removals and a rebuild, and over every history it stays the index of
the stored connections.
-/

namespace ShaderGraph

/-- A change of a graph. A new connection comes with the identifier that it is to get. -/
inductive Edit
  | addNode (n : Node)
  | removeNode (id : NodeId)
  | connect (fresh : ConnectionId) (source : NodeId) (output : PinId) (target : NodeId)
    (input : PinId)
  | connectByName (fresh : ConnectionId) (source : NodeId) (output : String) (target : NodeId)
    (input : String)
  | disconnect (id : ConnectionId)

namespace Graph

/-- The graph that an edit leaves, with the error of one that fails. -/
def attempt (g : Graph) (edit : GraphEdit ConnectionId) : Graph × Option ConnectionError :=
  match edit.apply g with
  | (.ok _, g') => (g', none)
  | (.error e, g') => (g', some e)

def perform (g : Graph) : Edit → Graph × Option ConnectionError
  | .addNode n => (g.addNode n, none)
  | .removeNode id => (g.removeNode id, none)
  | .connect fresh source output target input =>
    g.attempt (.connect fresh source output target input)
  | .connectByName fresh source output target input =>
    g.attempt (.connectByName fresh source output target input)
  | .disconnect id => (g.disconnect id, none)

/-- The graph after edits one after another. Those that fail are passed over. -/
def performAll (g : Graph) (edits : List Edit) : Graph :=
  edits.foldl (fun g e ↦ (g.perform e).1) g

/-- A new connection gets an identifier that is not in use. -/
def IsFresh (g : Graph) : Edit → Prop
  | .connect fresh .. | .connectByName fresh .. => g.connection? fresh = none
  | _ => True

/-- A node that is added does not take the place of one that is there. -/
def IsAddition (g : Graph) : Edit → Prop
  | .addNode n => g.node? n.id = none
  | _ => True

/-- A condition on every edit and the graph to which it is made. -/
def Throughout (P : Graph → Edit → Prop) : Graph → List Edit → Prop
  | _, [] => True
  | g, e :: edits => P g e ∧ Throughout P (g.perform e).1 edits

instance (g : Graph) : ∀ e, Decidable (g.IsFresh e)
  | .connect fresh .. | .connectByName fresh .. =>
    inferInstanceAs (Decidable (g.connection? fresh = none))
  | .addNode _ | .removeNode _ | .disconnect _ => inferInstanceAs (Decidable True)

instance (g : Graph) : ∀ e, Decidable (g.IsAddition e)
  | .addNode n => inferInstanceAs (Decidable (g.node? n.id = none))
  | .connect .. | .connectByName .. | .removeNode _ | .disconnect _ =>
    inferInstanceAs (Decidable True)

instance decidableThroughout {P : Graph → Edit → Prop} [∀ g e, Decidable (P g e)] :
    ∀ g edits, Decidable (Throughout P g edits)
  | _, [] => inferInstanceAs (Decidable True)
  | g, e :: edits =>
    have := decidableThroughout (P := P) (g.perform e).1 edits
    inferInstanceAs (Decidable (P g e ∧ Throughout P (g.perform e).1 edits))

/-- The store of connections and the index of drivers agree, and connections lie between nodes. -/
structure IsTidy (g : Graph) : Prop where
  stored : ∀ e ∈ g.connections.entries, e.2.id = e.1
  between : ∀ c ∈ g.connections.values,
    c.fromNode ≠ c.toNode ∧ (g.node? c.fromNode).isSome ∧ (g.node? c.toNode).isSome
  single : ∀ pin, (g.connections.values.filter fun c ↦ c.toPin = pin).length ≤ 1
  driven : ∀ pin c, g.driver? pin = some c ↔ c ∈ g.connections.values ∧ c.toPin = pin

variable {g g' : Graph} {e : Edit} {edits : List Edit} {c : Connection} {error : ConnectionError}

/-! ## Single edits -/

/-- What an edit does: nothing, if it fails, or one of the changes of the store. -/
inductive Change (g : Graph) (e : Edit) : Graph → Prop
  | failure : Change g e g
  | addition (n : Node) (h : e = .addNode n) : Change g e (g.addNode n)
  | removal (id : NodeId) : Change g e (g.removeNode id)
  | connection {g' : Graph} {fresh : ConnectionId} {source target : NodeId} {output input : PinId}
    (hfresh : g.IsFresh e → g.connection? fresh = none)
    (h : g.connect fresh source output target input = .ok g') : Change g e g'
  | disconnection (id : ConnectionId) : Change g e (g.disconnect id)

/-- An edit that fails leaves the graph as it was. -/
theorem attempt_cases {edit : GraphEdit ConnectionId} {post : ConnectionId → Graph → Prop}
    (h : edit.Meets g post) :
    (∃ error, g.attempt edit = (g, some error)) ∨
      ∃ g', g.attempt edit = (g', none) ∧ edit.graphAfter g = .ok g' := by
  unfold attempt GraphEdit.graphAfter
  obtain ⟨error, herror⟩ | ⟨id, g', hid, -⟩ := h
  · rw [herror]
    exact .inl ⟨error, rfl⟩
  · rw [hid]
    exact .inr ⟨g', rfl, rfl⟩

theorem change_attempt {edit : GraphEdit ConnectionId} {post : ConnectionId → Graph → Prop}
    (hmeets : edit.Meets g post) (h : ∀ g', edit.graphAfter g = .ok g' → g.Change e g') :
    g.Change e (g.attempt edit).1 := by
  obtain ⟨error, hattempt⟩ | ⟨g', hattempt, hafter⟩ := attempt_cases hmeets
  · rw [hattempt]
    exact .failure
  · rw [hattempt]
    exact h g' hafter

theorem change_perform (g : Graph) (e : Edit) : g.Change e (g.perform e).1 := by
  cases e with
  | addNode n => exact .addition n rfl
  | removeNode id => exact .removal id
  | connect fresh source output target input =>
    exact change_attempt (g.connect_meets fresh source output target input) fun g' h ↦
      .connection (fun hfresh ↦ hfresh) h
  | connectByName fresh source output target input =>
    refine change_attempt (g.connectByName_meets fresh source output target input) fun g' h ↦ ?_
    obtain ⟨fromPin, toPin, hpins⟩ := connectByName_eq_ok h
    exact .connection (fun hfresh ↦ hfresh) hpins
  | disconnect id => exact .disconnection id

theorem perform_of_error (h : (g.perform e).2 = some error) : (g.perform e).1 = g := by
  have hattempt {edit : GraphEdit ConnectionId} {post : ConnectionId → Graph → Prop}
      (hmeets : edit.Meets g post) (h : (g.attempt edit).2 = some error) : (g.attempt edit).1 = g := by
    obtain ⟨e, hfails⟩ | ⟨g', hsucceeds, -⟩ := attempt_cases hmeets
    · rw [hfails]
    · rw [hsucceeds] at h
      cases h
  cases e with
  | addNode n => cases h
  | removeNode id => cases h
  | connect fresh source output target input => exact hattempt (g.connect_meets ..) h
  | connectByName fresh source output target input => exact hattempt (g.connectByName_meets ..) h
  | disconnect id => cases h

theorem Built.perform (h : g.Built) (hfresh : g.IsFresh e) : (g.perform e).1.Built := by
  have hchange := g.change_perform e
  generalize (g.perform e).1 = g' at hchange ⊢
  cases hchange with
  | failure => exact h
  | addition n => exact h.addNode n
  | removal id => exact h.removeNode id
  | connection hnew hconnect => exact h.connect (hnew hfresh) hconnect
  | disconnection id => exact h.disconnect id

/-- What is true of a connection that is made, depends on its nodes only, and is not spoilt by added
nodes, is kept by every edit. -/
theorem perform_keeps {P : Graph → Connection → Prop}
    (hjoins : ∀ g c, c.fromNode ≠ c.toNode → g.joins c → P g c)
    (hcongr : ∀ g g' c, g'.node? c.fromNode = g.node? c.fromNode →
      g'.node? c.toNode = g.node? c.toNode → P g c → P g' c)
    (hadd : ∀ n, e = .addNode n → ∀ c ∈ g.connections.values, P g c → P (g.addNode n) c)
    (h : ∀ c ∈ g.connections.values, P g c) :
    ∀ c ∈ (g.perform e).1.connections.values, P (g.perform e).1 c := by
  have hchange := g.change_perform e
  generalize (g.perform e).1 = g' at hchange ⊢
  cases hchange with
  | failure => exact h
  | addition n hn => exact fun c hc ↦ hadd n hn c hc (h c hc)
  | removal id =>
    intro c hc
    obtain ⟨hmem, hfrom, hto⟩ := mem_connections_removeNode.mp hc
    refine hcongr g _ c ?_ ?_ (h c hmem)
    · rw [node?_removeNode, if_neg hfrom]
    · rw [node?_removeNode, if_neg hto]
  | connection hnew hconnect =>
    obtain ⟨hapart, hjoin, -, hresult⟩ := connects_of_connect hconnect
    rw [hresult]
    intro c hc
    rcases OrderedMap.mem_values_insert hc with rfl | hc
    · exact hcongr g _ _ rfl rfl (hjoins g _ hapart hjoin)
    · exact hcongr g _ c rfl rfl (h c hc)
  | disconnection id =>
    unfold disconnect
    split
    · exact h
    · intro c hc
      obtain ⟨entry, hentry, rfl⟩ := List.mem_map.mp hc
      exact hcongr g _ _ rfl rfl (h _ (List.mem_map_of_mem (List.mem_filter.mp hentry).1))

/-! ## Histories -/

/-- Connections whose nodes are stored and different. -/
def LiesBetween (g : Graph) (c : Connection) : Prop :=
  c.fromNode ≠ c.toNode ∧ (g.node? c.fromNode).isSome ∧ (g.node? c.toNode).isSome

theorem isSome_of_joins (h : g.joins c) :
    (g.node? c.fromNode).isSome ∧ (g.node? c.toNode).isSome := by
  obtain ⟨n, p, m, q, hn, -, hm, -⟩ := exists_of_joins h
  simp [hn, hm]

theorem node?_addNode (n : Node) (id : NodeId) :
    (g.addNode n).node? id = if id = n.id then some n else g.node? id :=
  OrderedMap.get?_insert ..

theorem perform_liesBetween (h : ∀ c ∈ g.connections.values, g.LiesBetween c) :
    ∀ c ∈ (g.perform e).1.connections.values, (g.perform e).1.LiesBetween c := by
  refine perform_keeps (fun g c hne hjoins ↦ ⟨hne, isSome_of_joins hjoins⟩)
    (fun g g' c hfrom hto hc ↦ ?_) (fun n _ c _ hc ↦ ?_) h
  · rwa [LiesBetween, hfrom, hto]
  · have hadd {id : NodeId} (hid : (g.node? id).isSome) : ((g.addNode n).node? id).isSome := by
      rw [node?_addNode]
      split
      · rfl
      · exact hid
    exact ⟨hc.1, hadd hc.2.1, hadd hc.2.2⟩

theorem perform_joins (haddition : g.IsAddition e) (h : ∀ c ∈ g.connections.values, g.joins c) :
    ∀ c ∈ (g.perform e).1.connections.values, (g.perform e).1.joins c := by
  refine perform_keeps (fun g c _ hjoins ↦ hjoins) (fun g g' c hfrom hto hc ↦ ?_)
    (fun n hn c _ hc ↦ ?_) h
  · rwa [joins, hfrom, hto]
  · have hother {id : NodeId} (hid : (g.node? id).isSome) : (g.addNode n).node? id = g.node? id := by
      subst hn
      rw [node?_addNode, if_neg]
      rintro rfl
      rw [show g.node? n.id = none from haddition] at hid
      cases hid
    obtain ⟨hfrom, hto⟩ := isSome_of_joins hc
    rwa [joins, hother hfrom, hother hto]

/-- What every edit under a condition keeps is kept by all of them. -/
theorem performAll_induction {P : Graph → Edit → Prop} {I : Graph → Prop}
    (hstep : ∀ g e, P g e → I g → I (g.perform e).1) (h : Throughout P g edits) (hg : I g) :
    I (g.performAll edits) := by
  induction edits generalizing g with
  | nil => exact hg
  | cons e edits ih => exact ih h.2 (hstep g e h.1 hg)

theorem Built.isTidy (h : g.Built) (hbetween : ∀ c ∈ g.connections.values, g.LiesBetween c) :
    g.IsTidy where
  stored e he := h.consistent.connections e.1 e.2
    (h.consistent.connectionsDistinct.get?_eq_some_iff.mpr he)
  between := hbetween
  single pin := by
    rw [← List.countP_eq_length_filter]
    have hcount := List.nodup_iff_count_le_one.mp h.consistent.nodup_toPins pin
    rwa [List.count, List.countP_map] at hcount
  driven _ _ := h.consistent.driver?_eq_some_iff

/-- Over every history the index of drivers is that of the stored connections, each of which lies
between two nodes and is the only one that ends in its input. An edit that fails changes nothing, and as
long as no node takes the place of another one, no connection is left dangling. -/
theorem performAll_isTidy (name : String) (edits : List Edit)
    (hfresh : Throughout IsFresh { name } edits) :
    (performAll { name } edits).IsTidy ∧
      (∀ e error, ((performAll { name } edits).perform e).2 = some error →
        ((performAll { name } edits).perform e).1 = performAll { name } edits) ∧
      (Throughout IsAddition { name } edits →
        ∀ id, (performAll { name } edits).validate ≠ .error (.danglingConnection id)) := by
  have hbuilt : (performAll { name } edits).Built :=
    performAll_induction (fun _ _ hfresh h ↦ h.perform hfresh) hfresh (.empty name)
  have hbetween : ∀ c ∈ (performAll { name } edits).connections.values,
      (performAll { name } edits).LiesBetween c :=
    performAll_induction (I := fun g ↦ ∀ c ∈ g.connections.values, g.LiesBetween c)
      (fun _ _ _ h ↦ perform_liesBetween h) hfresh nofun
  refine ⟨hbuilt.isTidy hbetween, fun e error h ↦ perform_of_error h,
    fun hadditions id hdangling ↦ ?_⟩
  have hjoins : ∀ c ∈ (performAll { name } edits).connections.values,
      (performAll { name } edits).joins c :=
    performAll_induction (I := fun g ↦ ∀ c ∈ g.connections.values, g.joins c)
      (fun _ _ haddition h ↦ perform_joins haddition h) hadditions nofun
  rcases validate_eq_error hdangling with ⟨c, hc, hjoin, -⟩ | ⟨id', heq, -⟩
  · exact hjoin (hjoins c hc)
  · cases heq

/-- A history in which a driven input is freed twice, by a removed connection and by a removed node. -/
def rewiring : List Edit :=
  let node (k : Nat) (kind : NodeKind) : Edit := .addNode (.ofKind (nodeNumber k) (pinNumber k) kind)
  [node 0 (.pixelOutput {}), node 1 .negate, node 2 (.uniform "tint" .vec4),
    .connectByName (connectionNumber 0) (nodeNumber 2) "Output" (nodeNumber 1) "Input",
    .connect (connectionNumber 1) (nodeNumber 1) (pinNumber 1 .output 0) (nodeNumber 0)
      (pinNumber 0 .input 0),
    .connectByName (connectionNumber 2) (nodeNumber 2) "Output" (nodeNumber 0) "Input",
    .disconnect (connectionNumber 1),
    .connectByName (connectionNumber 2) (nodeNumber 2) "Output" (nodeNumber 0) "Input",
    .removeNode (nodeNumber 2),
    .connectByName (connectionNumber 3) (nodeNumber 1) "Output" (nodeNumber 0) "Input"]

theorem performAll_isTidy_rewiring :
    Throughout IsFresh { name := "rewired" } rewiring ∧
      Throughout IsAddition { name := "rewired" } rewiring ∧
      (performAll { name := "rewired" } rewiring).connections.keys = [connectionNumber 3] ∧
      (performAll { name := "rewired" } rewiring).IsTidy ∧
      ∀ id, (performAll { name := "rewired" } rewiring).validate ≠
        .error (.danglingConnection id) := by
  have hfresh : Throughout IsFresh { name := "rewired" } rewiring := by decide +kernel
  have hadditions : Throughout IsAddition { name := "rewired" } rewiring := by decide +kernel
  obtain ⟨htidy, -, hvalid⟩ := performAll_isTidy "rewired" rewiring hfresh
  exact ⟨hfresh, hadditions, by decide +kernel, htidy, hvalid hadditions⟩

end Graph

end ShaderGraph
