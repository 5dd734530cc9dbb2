import Mathlib.Data.List.Nodup
import ShaderGraph.Graph.Validation
import ShaderGraph.Proofs.Data.Maps

/-!
# Graphs built by editing

A graph that was built by adding and removing nodes and connections keeps both under identifiers of
their own, and the connection that drives an input is the one stored connection that ends in it.
-/

namespace ShaderGraph

/-! ## Edits that may fail -/

namespace GraphEdit

variable {α : Type} {edit : GraphEdit α} {g g' : Graph} {post : α → Graph → Prop}

/-- The edit fails and leaves the graph as it was, or it succeeds with a result and a graph of which
`post` holds. -/
def Meets (edit : GraphEdit α) (g : Graph) (post : α → Graph → Prop) : Prop :=
  (∃ e, edit.apply g = (.error e, g)) ∨ ∃ a g', edit.apply g = (.ok a, g') ∧ post a g'

namespace Meets

theorem fail (e : ConnectionError) : (throw e : GraphEdit α).Meets g post :=
  .inl ⟨e, rfl⟩

theorem get {f : Graph → GraphEdit α} (h : (f g).Meets g post) : (MonadState.get >>= f).Meets g post :=
  h

theorem check {p : Prop} [Decidable p] {e : ConnectionError} {f : Unit → GraphEdit α}
    (h : p → (f ()).Meets g post) : (GraphEdit.check p e >>= f).Meets g post := by
  unfold GraphEdit.check
  split
  · next hp => exact h hp
  · exact .fail e

/-- What an edit leaves if it succeeds. -/
theorem of_graphAfter (h : edit.Meets g post) (hafter : edit.graphAfter g = .ok g') :
    ∃ a, edit.apply g = (.ok a, g') ∧ post a g' := by
  rw [graphAfter] at hafter
  obtain ⟨e, he⟩ | ⟨a, g'', ha, hpost⟩ := h
  · rw [he] at hafter
    cases hafter
  · rw [ha] at hafter
    cases hafter
    exact ⟨a, ha, hpost⟩

end Meets

end GraphEdit

namespace Graph

/-- A connection is made: it joins pins of two nodes, is added to the store and drives its input, which
was free. -/
structure Connects (g : Graph) (c : Connection) (g' : Graph) : Prop where
  apart : c.fromNode ≠ c.toNode
  joins : g.joins c
  free : g.drivers.get? c.toPin = none
  result : g' = { g with
    connections := g.connections.insert c.id c, drivers := g.drivers.insert c.toPin c.id }

section Connecting

variable {g g' : Graph} {fresh : ConnectionId} {source target : NodeId}

/-- All checks come before the graph is changed. -/
theorem connect_meets (g : Graph) (fresh : ConnectionId) (source : NodeId) (output : PinId)
    (target : NodeId) (input : PinId) :
    (GraphEdit.connect fresh source output target input).Meets g fun _ g' ↦
      g.Connects ⟨fresh, source, output, target, input⟩ g' := by
  refine .get ?_
  split
  · next n hn =>
    refine .get ?_
    split
    · next m hm =>
      split
      · next p hp =>
        split
        · next q hq =>
          refine .check fun hjoins ↦ .get (.check fun hfree ↦ .check fun hapart ↦ ?_)
          refine .inr ⟨fresh, _, rfl, hapart, ?_, ?_, rfl⟩
          · simpa [joins, hn, hm, hp, hq] using hjoins
          · simpa [OrderedMap.contains] using hfree
        · exact .fail _
      · exact .fail _
    · exact .fail _
  · exact .fail _

/-- A connection by name is a connection of the pins that have the names. -/
theorem connectByName_meets (g : Graph) (fresh : ConnectionId) (source : NodeId) (output : String)
    (target : NodeId) (input : String) :
    (GraphEdit.connectByName fresh source output target input).Meets g fun _ g' ↦
      ∃ fromPin toPin, g.connect fresh source fromPin target toPin = .ok g' := by
  refine .get ?_
  split
  · next fromPin _ =>
    refine .get ?_
    split
    · next toPin _ =>
      refine (g.connect_meets fresh source fromPin target toPin).imp_right fun ⟨a, g', ha, _⟩ ↦ ?_
      exact ⟨a, g', ha, fromPin, toPin, by rw [Graph.connect, GraphEdit.graphAfter, ha]⟩
    · exact .fail _
  · exact .fail _

theorem connects_of_connect {output input : PinId}
    (h : g.connect fresh source output target input = .ok g') :
    g.Connects ⟨fresh, source, output, target, input⟩ g' := by
  obtain ⟨-, -, hconnects⟩ := (g.connect_meets fresh source output target input).of_graphAfter h
  exact hconnects

theorem connectByName_eq_ok {output input : String}
    (h : g.connectByName fresh source output target input = .ok g') :
    ∃ fromPin toPin, g.connect fresh source fromPin target toPin = .ok g' := by
  obtain ⟨-, -, hconnect⟩ := (g.connectByName_meets fresh source output target input).of_graphAfter h
  exact hconnect

end Connecting

/-! ## Graphs that were built -/

/-- The graph was built by edits, in which every new connection got an identifier that was not in
use. -/
inductive Built : Graph → Prop
  | empty (name : String) : Built { name }
  | addNode {g : Graph} (n : Node) (h : Built g) : Built (g.addNode n)
  | removeNode {g : Graph} (id : NodeId) (h : Built g) : Built (g.removeNode id)
  | connect {g g' : Graph} {fresh : ConnectionId} {source target : NodeId} {output input : PinId}
    (h : Built g) (hfresh : g.connection? fresh = none)
    (hconnect : g.connect fresh source output target input = .ok g') : Built g'
  | connectByName {g g' : Graph} {fresh : ConnectionId} {source target : NodeId}
    {output input : String} (h : Built g) (hfresh : g.connection? fresh = none)
    (hconnect : g.connectByName fresh source output target input = .ok g') : Built g'
  | disconnect {g : Graph} (id : ConnectionId) (h : Built g) : Built (g.disconnect id)

/-- Nodes and connections are stored under their own identifiers, and the drivers are those of the
stored connections. -/
structure Consistent (g : Graph) : Prop where
  nodesDistinct : g.nodes.Distinct
  nodes : ∀ id n, g.node? id = some n → n.id = id
  connectionsDistinct : g.connections.Distinct
  connections : ∀ id c, g.connection? id = some c → c.id = id
  drivers : ∀ pin id, g.drivers.get? pin = some id ↔ ∃ c, g.connection? id = some c ∧ c.toPin = pin

namespace Consistent

variable {g : Graph} {id : NodeId} {n : Node} {c : Connection} {pin : PinId}

theorem mem_nodes_iff (h : g.Consistent) : n ∈ g.nodes.values ↔ g.node? n.id = some n := by
  rw [h.nodesDistinct.mem_values_iff]
  constructor
  · rintro ⟨id, hid⟩
    rwa [h.nodes id n hid]
  · exact fun hn ↦ ⟨n.id, hn⟩

theorem mem_connections_iff (h : g.Consistent) :
    c ∈ g.connections.values ↔ g.connection? c.id = some c := by
  rw [h.connectionsDistinct.mem_values_iff]
  constructor
  · rintro ⟨id, hid⟩
    rwa [h.connections id c hid]
  · exact fun hc ↦ ⟨c.id, hc⟩

/-- No two connections end in one input. -/
theorem eq_of_toPin (h : g.Consistent) {c c' : Connection} (hc : c ∈ g.connections.values)
    (hc' : c' ∈ g.connections.values) (hpin : c.toPin = c'.toPin) : c = c' := by
  rw [h.mem_connections_iff] at hc hc'
  have hdriver := (h.drivers c.toPin c.id).mpr ⟨c, hc, rfl⟩
  have hdriver' := (h.drivers c.toPin c'.id).mpr ⟨c', hc', hpin.symm⟩
  have hid : c.id = c'.id := Option.some.inj (hdriver.symm.trans hdriver')
  rw [hid] at hc
  exact Option.some.inj (hc.symm.trans hc')

/-- An input is driven by the connection that ends in it. -/
theorem driver?_eq_some_iff (h : g.Consistent) :
    g.driver? pin = some c ↔ c ∈ g.connections.values ∧ c.toPin = pin := by
  rw [h.mem_connections_iff]
  constructor
  · intro hdriver
    obtain ⟨id, hid, hc⟩ := Option.bind_eq_some_iff.mp hdriver
    obtain ⟨c', hc', hpin⟩ := (h.drivers pin id).mp hid
    obtain rfl := Option.some.inj (hc.symm.trans hc')
    exact ⟨h.connections id c hc ▸ hc, hpin⟩
  · rintro ⟨hc, rfl⟩
    have hid := (h.drivers c.toPin c.id).mpr ⟨c, hc, rfl⟩
    exact Option.bind_eq_some_iff.mpr ⟨c.id, hid, hc⟩

end Consistent

/-! ## Edits -/

section Edits

variable {g g' : Graph} {n : Node} {id : NodeId}

theorem consistent_empty (name : String) : ({ name } : Graph).Consistent where
  nodesDistinct := OrderedMap.distinct_empty
  nodes _ _ h := by cases h
  connectionsDistinct := OrderedMap.distinct_empty
  connections _ _ h := by cases h
  drivers _ _ := by simp [connection?]

theorem Consistent.addNode (h : g.Consistent) (n : Node) : (g.addNode n).Consistent where
  nodesDistinct := h.nodesDistinct.insert n.id n
  nodes id m hm := by
    rw [node?, Graph.addNode, OrderedMap.get?_insert] at hm
    split at hm
    · next hid =>
      obtain rfl := Option.some.inj hm
      exact hid.symm
    · exact h.nodes id m hm
  connectionsDistinct := h.connectionsDistinct
  connections := h.connections
  drivers := h.drivers

/-- The connections are pairwise different, and so are the inputs in which they end. -/
theorem Consistent.nodup_toPins (h : g.Consistent) :
    (g.connections.values.map Connection.toPin).Nodup := by
  have hids : g.connections.values.map Connection.id = g.connections.keys := by
    simp only [OrderedMap.values, OrderedMap.keys, List.map_map]
    refine List.map_congr_left fun e he ↦ ?_
    exact h.connections e.1 e.2 (h.connectionsDistinct.get?_eq_some_iff.mpr he)
  have hvalues : g.connections.values.Nodup := List.Nodup.of_map Connection.id (by
    rw [hids]
    exact h.connectionsDistinct)
  exact (List.nodup_map_iff_inj_on hvalues).mpr fun c hc c' hc' ↦ h.eq_of_toPin hc hc'

/-- The drivers that connections give, if no two of them end in one input. -/
theorem get?_driversOf {cs : List Connection} (h : (cs.map Connection.toPin).Nodup) {pin : PinId}
    {id : ConnectionId} :
    (driversOf cs).get? pin = some id ↔ ∃ c ∈ cs, c.id = id ∧ c.toPin = pin := by
  have hkeys : ((cs.map fun c ↦ (c.toPin, c.id)).map Prod.fst).Nodup := by
    rwa [List.map_map]
  rw [driversOf, OrderedMap.get?_ofList hkeys]
  have hdistinct : (⟨cs.map fun c ↦ (c.toPin, c.id)⟩ : OrderedMap PinId ConnectionId).Distinct :=
    hkeys
  have hentries := hdistinct.get?_eq_some_iff (k := pin) (a := id)
  rw [OrderedMap.get?] at hentries
  rw [hentries]
  simp only [List.mem_map, Prod.mk.injEq, and_comm]

theorem node?_removeNode (g : Graph) (id other : NodeId) :
    (g.removeNode id).node? other = if other = id then none else g.node? other :=
  OrderedMap.get?_erase ..

theorem mem_connections_removeNode {c : Connection} :
    c ∈ (g.removeNode id).connections.values ↔
      c ∈ g.connections.values ∧ c.fromNode ≠ id ∧ c.toNode ≠ id := by
  change c ∈ (g.connections.entries.filter fun e ↦ !e.2.involves id).map Prod.snd ↔
    c ∈ g.connections.entries.map Prod.snd ∧ _
  simp only [List.mem_map, List.mem_filter, Connection.involves]
  constructor
  · rintro ⟨e, ⟨he, hkept⟩, rfl⟩
    exact ⟨⟨e, he, rfl⟩, by simpa using hkept⟩
  · rintro ⟨⟨e, he, rfl⟩, hfrom, hto⟩
    exact ⟨e, ⟨he, by simp [hfrom, hto]⟩, rfl⟩

theorem Consistent.removeNode (h : g.Consistent) (id : NodeId) : (g.removeNode id).Consistent where
  nodesDistinct := h.nodesDistinct.erase id
  nodes id' n hn := by
    rw [node?, Graph.removeNode, OrderedMap.get?_erase] at hn
    split at hn
    · cases hn
    · exact h.nodes id' n hn
  connectionsDistinct := h.connectionsDistinct.filterValues _
  connections k c hc := h.connections k c ((h.connectionsDistinct.get?_filterValues _).mp hc).1
  drivers pin k := by
    let kept := g.connections.filterValues fun c ↦ !c.involves id
    have hkept : kept.Distinct := h.connectionsDistinct.filterValues _
    have hkeyed : ∀ k c, kept.get? k = some c → c.id = k := fun k c hc ↦
      h.connections k c ((h.connectionsDistinct.get?_filterValues _).mp hc).1
    have hpins : (kept.values.map Connection.toPin).Nodup :=
      h.nodup_toPins.sublist ((List.filter_sublist.map Prod.snd).map Connection.toPin)
    change (driversOf kept.values).get? pin = some k ↔ ∃ c, kept.get? k = some c ∧ c.toPin = pin
    rw [get?_driversOf hpins]
    constructor
    · rintro ⟨c, hc, rfl, hpin⟩
      obtain ⟨k, hk⟩ := hkept.mem_values_iff.mp hc
      exact ⟨c, hkeyed k c hk ▸ hk, hpin⟩
    · rintro ⟨c, hc, hpin⟩
      exact ⟨c, OrderedMap.mem_values_of_get? hc, hkeyed k c hc, hpin⟩

theorem Consistent.connect {fresh : ConnectionId} {source target : NodeId} {output input : PinId}
    (h : g.Consistent) (hfresh : g.connection? fresh = none)
    (hconnect : g.connect fresh source output target input = .ok g') : g'.Consistent := by
  obtain ⟨-, -, hfree, rfl⟩ := connects_of_connect hconnect
  refine ⟨h.nodesDistinct, h.nodes, h.connectionsDistinct.insert fresh _, fun id c hc ↦ ?_,
    fun pin id ↦ ?_⟩
  · rw [connection?, OrderedMap.get?_insert] at hc
    split at hc
    · next hid =>
      obtain rfl := Option.some.inj hc
      exact hid.symm
    · exact h.connections id c hc
  · simp only [connection?, OrderedMap.get?_insert]
    have hdrivers := h.drivers pin id
    rw [connection?] at hdrivers hfresh
    by_cases hpin : pin = input
    · subst hpin
      by_cases hid : id = fresh
      · simp [hid]
      · have hnone : ¬ ∃ c, g.connections.get? id = some c ∧ c.toPin = pin := by
          rw [← hdrivers, hfree]
          simp
        simpa [hid, Ne.symm hid, eq_comm] using hnone
    · by_cases hid : id = fresh
      · subst hid
        rw [hfresh] at hdrivers
        simpa [hpin, Ne.symm hpin] using hdrivers
      · simpa [hpin, hid] using hdrivers

theorem Consistent.disconnect (h : g.Consistent) (id : ConnectionId) :
    (g.disconnect id).Consistent := by
  unfold Graph.disconnect
  split
  · exact h
  · next c hc =>
    refine ⟨h.nodesDistinct, h.nodes, h.connectionsDistinct.erase id, fun id' c' hc' ↦ ?_,
      fun pin id' ↦ ?_⟩
    · rw [connection?, OrderedMap.get?_erase] at hc'
      split at hc'
      · cases hc'
      · exact h.connections id' c' hc'
    · simp only [connection?, OrderedMap.get?_erase]
      have hdrivers := h.drivers pin id'
      have hdriver := (h.drivers c.toPin id).mpr ⟨c, hc, rfl⟩
      rw [connection?] at hdrivers
      by_cases hpin : pin = c.toPin
      · subst hpin
        -- The only connection that ends in the input is the one that is removed.
        by_cases hid : id' = id
        · simp [hid]
        · rw [hdriver] at hdrivers
          simpa [hid, Ne.symm hid] using hdrivers
      · by_cases hid : id' = id
        · subst hid
          have hnone : ¬ g.drivers.get? pin = some id' := by
            rw [hdrivers]
            rintro ⟨c', hc', hpin'⟩
            obtain rfl := Option.some.inj (hc.symm.trans hc')
            exact hpin hpin'.symm
          simpa [hpin] using hnone
        · simpa [hpin, hid] using hdrivers

theorem Built.consistent (h : Built g) : g.Consistent := by
  induction h with
  | empty name => exact consistent_empty name
  | addNode n _ ih => exact ih.addNode n
  | removeNode id _ ih => exact ih.removeNode id
  | connect _ hfresh hconnect ih => exact ih.connect hfresh hconnect
  | connectByName _ hfresh hconnect ih =>
    obtain ⟨fromPin, toPin, hpins⟩ := connectByName_eq_ok hconnect
    exact ih.connect hfresh hpins
  | disconnect id _ ih => exact ih.disconnect id

end Edits

/-! ## Numbered graphs -/

/-- A connection from an output to an input, by the numbers of the nodes and the names of the pins. -/
structure Wire where
  source : Nat
  output : String
  target : Nat
  input : String

/-- The identifier of the node with a number. -/
def nodeNumber (k : Nat) : NodeId :=
  ⟨⟨BitVec.ofNat 128 k⟩⟩

/-- The identifiers of the pins of the node with a number. -/
def pinNumber (k : Nat) : PinDirection → Nat → PinId
  | .input, i => ⟨⟨BitVec.ofNat 64 k ++ BitVec.ofNat 64 (2 * i)⟩⟩
  | .output, i => ⟨⟨BitVec.ofNat 64 k ++ BitVec.ofNat 64 (2 * i + 1)⟩⟩

def connectionNumber (k : Nat) : ConnectionId :=
  ⟨⟨BitVec.ofNat 128 k⟩⟩

/-- Adds nodes of the given kinds, which are numbered on from `k`. -/
def addKinds (g : Graph) (k : Nat) : List NodeKind → Graph
  | [] => g
  | kind :: kinds => (g.addNode (.ofKind (nodeNumber k) (pinNumber k) kind)).addKinds (k + 1) kinds

/-- Makes the connections of wires as far as this succeeds; the connections are numbered on from
`k`. -/
def addWires (g : Graph) (k : Nat) : List Wire → Graph
  | [] => g
  | w :: ws =>
    if (g.connection? (connectionNumber k)).isSome then g.addWires (k + 1) ws
    else
      match g.connectByName (connectionNumber k) (nodeNumber w.source) w.output
          (nodeNumber w.target) w.input with
      | .ok g' => g'.addWires (k + 1) ws
      | .error _ => g.addWires (k + 1) ws

/-- A graph of numbered nodes of the given kinds with wires between them. -/
def numbered (kinds : List NodeKind) (wires : List Wire) : Graph :=
  (untitled.addKinds 0 kinds).addWires 0 wires

theorem Built.addKinds {g : Graph} (h : g.Built) (k : Nat) (kinds : List NodeKind) :
    (g.addKinds k kinds).Built := by
  induction kinds generalizing g k with
  | nil => exact h
  | cons kind kinds ih => exact ih (.addNode _ h) (k + 1)

theorem Built.addWires {g : Graph} (h : g.Built) (k : Nat) (wires : List Wire) :
    (g.addWires k wires).Built := by
  induction wires generalizing g k with
  | nil => exact h
  | cons w ws ih =>
    unfold Graph.addWires
    split
    · exact ih h (k + 1)
    · next hfresh =>
      split
      · next hconnect => exact ih (.connectByName h (by simpa using hfresh) hconnect) (k + 1)
      · exact ih h (k + 1)

/-- Wires leave the nodes as they are. -/
theorem nodes_addWires (g : Graph) (k : Nat) (wires : List Wire) :
    (g.addWires k wires).nodes = g.nodes := by
  induction wires generalizing g k with
  | nil => rfl
  | cons w ws ih =>
    unfold Graph.addWires
    split
    · exact ih g (k + 1)
    · split
      · next hconnect =>
        obtain ⟨fromPin, toPin, hpins⟩ := connectByName_eq_ok hconnect
        rw [ih, (connects_of_connect hpins).result]
      · exact ih g (k + 1)

/-- Numbered graphs are built by edits. -/
theorem built_numbered (kinds : List NodeKind) (wires : List Wire) : (numbered kinds wires).Built :=
  .addWires (.addKinds (.empty _) 0 kinds) 0 wires

end Graph

end ShaderGraph
