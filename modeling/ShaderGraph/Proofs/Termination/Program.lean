import ShaderGraph.Proofs.Graph.Editing
import ShaderGraph.Proofs.Lockstep.Program

/-!
# Every compilation ends

An emitter that demands an output runs the emitter of another node, and this may go on through cycles of
loops and through both stages. Every emitter that runs inside of another one belongs to a node that is
not running yet, so emitters are never nested deeper than the graph has nodes, whatever its connections
are. The searches that a compilation makes are bounded in the same way.
-/

namespace ShaderGraph

/-- Nodes are stored under their own identifiers. -/
def Graph.IsKeyed (g : Graph) : Prop :=
  ∀ e ∈ g.nodes.entries, e.2.id = e.1

instance (g : Graph) : Decidable g.IsKeyed :=
  List.decidableBAll (fun e : NodeId × Node ↦ e.2.id = e.1) g.nodes.entries

namespace Graph

variable {g : Graph} {id : NodeId} {n : Node}

theorem Consistent.isKeyed (h : g.Consistent) : g.IsKeyed := fun e he ↦
  h.nodes e.1 e.2 (h.nodesDistinct.get?_eq_some_iff.mpr he)

theorem IsKeyed.id_eq (h : g.IsKeyed) (hn : g.node? id = some n) : n.id = id :=
  h (id, n) (entry_mem_of_lookup hn)

theorem IsKeyed.id_mem (h : g.IsKeyed) (hn : n ∈ g.nodes.values) : n.id ∈ g.nodes.keys := by
  obtain ⟨e, he, rfl⟩ := List.mem_map.mp hn
  rw [h e he]
  exact List.mem_map_of_mem he

end Graph

/-! ## Demands -/

section Demands

variable {L : Lock} {demand demand' : Demand}

/-- Demands that agree as long as fewer than `k` nodes are not running. -/
def Lock.AgreeWithin (L : Lock) (k : Nat) (demand demand' : Demand) : Prop :=
  ∀ running, Budget L.left.graph.nodes.keys k running → L.Agree running demand demand'

theorem Lock.AgreeWithin.evaluateStep (hkeyed : L.left.graph.IsKeyed) (htracked : L.tracked)
    (hadmits : ∀ n ∈ L.left.graph.nodes.values, L.Admits n) {k : Nat}
    (h : L.AgreeWithin k demand demand') :
    L.AgreeWithin (k + 1) (EmitM.evaluateStep demand) (EmitM.evaluateStep demand') := by
  intro running hrunning
  refine .evaluateStep (fun _ _ _ hn ↦ hkeyed.id_eq hn)
    (fun _ n hn ↦ hadmits n (Graph.node?_mem hn)) fun id n hn hidle ↦ h _ ?_
  have hid := hkeyed.id_eq hn
  exact hrunning.cons (hid ▸ Graph.mem_keys hn) (hidle htracked)

/-- Evaluations that fail alike agree at any depths that exceed the number of nodes, whatever stands
for calls that are nested deeper. -/
theorem Lock.agree_evaluateStep_iterate (hkeyed : L.left.graph.IsKeyed) (htracked : L.tracked)
    (hadmits : ∀ n ∈ L.left.graph.nodes.values, L.Admits n) {d d' : Nat}
    (hd : L.left.graph.nodes.size < d) (hd' : L.left.graph.nodes.size < d')
    (demand demand' : Demand) {n : Node} (hn : n ∈ L.left.graph.nodes.values) :
    L.Agree [n.id] (EmitM.evaluateStep^[d] demand) (EmitM.evaluateStep^[d'] demand') := by
  have hagree : L.AgreeWithin (L.left.graph.nodes.size + 1) (EmitM.evaluateStep^[d] demand)
      (EmitM.evaluateStep^[d'] demand') :=
    iterate_agree (fun _ _ _ h ↦ absurd h Budget.not_zero)
      (fun _ _ _ h ↦ h.evaluateStep hkeyed htracked hadmits) hd hd' demand demand'
  have hstart : Budget L.left.graph.nodes.keys (L.left.graph.nodes.size + 1) [] :=
    .start (by rw [Graph.length_keys]; exact Nat.lt_succ_self _)
  exact hagree [n.id] (hstart.cons (hkeyed.id_mem hn) (by simp)).succ

/-- An emission next to itself. -/
def Lock.diagonal (env : EmitEnv) : Lock where
  left := env
  right := env
  matching := ⟨Eq, Eq, True⟩
  exact := True
  agree := Eq
  tracked := True
  graphs := .refl _ _
  backend _ := rfl
  unrolls _ := .inl rfl
  blocks := CodeBuffer.keepsBlocks_eq
  supports := .refl _
  exact_of_strict _ := trivial

theorem EmitM.throw_bind {α β : Type} {e : CompileError} {f : α → EmitM β} :
    (throw e >>= f) = throw e :=
  rfl

/-- A call for a node that is running makes no calls, whatever the current stage is. -/
theorem run_evaluateStep_of_running {env : EmitEnv} {id : NodeId} {pin : PinId} {s : EmitState}
    (h : id ∈ s.inProgress) (demand demand' : Demand) :
    ((EmitM.evaluateStep demand id pin).run env).run.run s =
      ((EmitM.evaluateStep demand' id pin).run env).run.run s := by
  have hlookup : EmitM.Returns env (EmitM.lookup pin) s (s.binding? pin) s :=
    EmitM.returns_lookup.mpr ⟨rfl, rfl⟩
  unfold EmitM.evaluateStep EmitM.evaluateWith
  rw [EmitM.run_bind_of_returns hlookup, EmitM.run_bind_of_returns hlookup]
  cases s.binding? pin with
  | some v => rfl
  | none =>
    rw [EmitM.run_bind_of_returns (EmitM.returns_read.mpr ⟨rfl, rfl⟩),
      EmitM.run_bind_of_returns (EmitM.returns_read.mpr ⟨rfl, rfl⟩)]
    cases env.graph.node? id with
    | none => rfl
    | some n =>
      dsimp only
      rw [EmitM.run_bind_of_returns (EmitM.returns_get.mpr ⟨rfl, rfl⟩),
        EmitM.run_bind_of_returns (EmitM.returns_get.mpr ⟨rfl, rfl⟩), if_pos h, if_pos h,
        EmitM.throw_bind, EmitM.throw_bind]

end Demands

/-! ## Compilations -/

/-- The searches of a graph, with anything in place of the calls at a certain depth. -/
structure Graph.SearchesEnd (g : Graph) : Prop where
  sources : ∀ search d input, g.connections.size < d →
    g.sourcesStep^[d] search [] input = g.sourcesFrom g.searchDepth [] input
  dependence : ∀ target search d id, g.nodes.size < d →
    (g.dependsOnStep target)^[d] search [] id = g.dependsOn target (g.nodes.size + 2) [] id
  frontier : ∀ loop search d pins, g.connections.size < d →
    Graph.frontierBy ((g.frontierStep loop.id)^[d] search) loop pins = g.frontier loop pins

theorem Graph.searchesEnd (g : Graph) : g.SearchesEnd where
  sources search d input hd := by
    rw [Graph.sourcesFrom_eq_iterate]
    exact Graph.sourcesStep_iterate hd (Nat.lt_succ_self _) ..
  dependence target search d id hd := by
    rw [Graph.dependsOn_eq_iterate]
    exact Graph.dependsOnStep_iterate hd (Nat.lt_add_of_pos_right (by decide)) ..
  frontier loop search d pins hd := by
    have hfrontier : g.frontier loop pins =
        Graph.frontierBy (g.frontierFrom loop.id g.searchDepth) loop pins := rfl
    rw [hfrontier, Graph.frontierFrom_eq_iterate]
    exact Graph.frontierBy_iterate hd (Nat.lt_succ_self _) ..

/-- A compilation does not depend on what would stand for calls that are nested deeper than the graph
has nodes. -/
theorem compileBy_iterate (settings : Settings) {g : Graph} (hkeyed : g.IsKeyed)
    (search : List NodeId → NodeId → StateT (List NodeId) (Except GraphError) Unit) (demand : Demand)
    {d : Nat} (hd : g.nodes.size < d) :
    compileBy (g.visitStep^[d] search) (EmitM.evaluateStep^[d] demand) settings g =
      compile settings g := by
  let L := Lock.diagonal ⟨g, settings⟩
  have hadmits (n : Node) : L.Admits n := Lock.admits_of_exact trivial n
  have hvalidate : g.validateBy (g.visit (g.nodes.size + 1)) =
      g.validateBy (g.visitStep^[d] search) := by
    rw [Graph.visit_eq_iterate (g.nodes.size + 1)]
    exact Graph.validateBy_iterate (Nat.lt_succ_self _) hd ..
  have hprepared : L.Prepared (g.visit (g.nodes.size + 1)) (g.visitStep^[d] search) :=
    { validation := by
        change L.Follows _ ((g.validateBy _).mapError _) ((g.validateBy _).mapError _)
        rw [hvalidate]
        exact .refl (fun _ ↦ trivial) _
      terminal := .refl (.refl True) _
      vertexOutputs := List.forall₂_same.mpr fun n _ ↦ .refl True n
      admits := fun n _ ↦ hadmits n }
  have hdemand (n : Node) (hn : n ∈ g.nodes.values) :
      L.Agree [n.id] EmitM.evaluate (EmitM.evaluateStep^[d] demand) := by
    have hagree := Lock.agree_evaluateStep_iterate (L := L) hkeyed trivial (fun n _ ↦ hadmits n)
      (EmitM.lt_emissionDepth (Nat.le_refl _)) hd (EmitM.evaluateWithin 0) demand hn
    rw [← EmitM.evaluateWithin_eq_iterate] at hagree
    intro id id' pin pin' hid hpin s t hst
    rw [EmitM.run_evaluate]
    exact hagree id id' pin pin' hid hpin s t hst
  have hfollows : L.Follows Eq (compileBy (g.visit (g.nodes.size + 1)) EmitM.evaluate settings g)
      (compileBy (g.visitStep^[d] search) (EmitM.evaluateStep^[d] demand) settings g) :=
    hprepared.compileBy trivial rfl rfl hdemand
  rw [compile_eq_compileBy]
  exact hfollows.eq (L := L) trivial

/-- Compilations end: neither the search for cycles nor the evaluation of outputs gets to calls that
are nested deeper than the graph has nodes, over both stages together, and the searches of the
emitters end as well. -/
theorem compile_ends (settings : Settings) {g : Graph} (hkeyed : g.IsKeyed) :
    (∀ search demand d, g.nodes.size < d →
      compileBy (g.visitStep^[d] search) (EmitM.evaluateStep^[d] demand) settings g =
        compile settings g) ∧
      (∀ (s : EmitState) (id : NodeId) (pin : PinId) (demand demand' : Demand), id ∈ s.inProgress →
        ((EmitM.evaluateStep demand id pin).run ⟨g, settings⟩).run.run s =
          ((EmitM.evaluateStep demand' id pin).run ⟨g, settings⟩).run.run s) ∧
      g.SearchesEnd :=
  ⟨fun search demand _ hd ↦ compileBy_iterate settings hkeyed search demand hd,
    fun _ _ _ demand demand' h ↦ run_evaluateStep_of_running h demand demand', g.searchesEnd⟩

/-- Two loops in a cycle, of which one starts from a value that depends on its own output. -/
def loopsInCycle : Graph :=
  .numbered [.pixelOutput {}, .iterate 0 3, .iterate 0 3, .negate]
    [⟨1, "Output", 0, "Input"⟩, ⟨2, "Output", 1, "Input"⟩, ⟨1, "Output", 2, "Input"⟩,
      ⟨1, "Output", 3, "Input"⟩, ⟨3, "Output", 1, "Initial"⟩]

theorem compile_ends_loopsInCycle :
    loopsInCycle.IsKeyed ∧
      (∀ search demand d, loopsInCycle.nodes.size < d →
        compileBy (loopsInCycle.visitStep^[d] search) (EmitM.evaluateStep^[d] demand) {}
          loopsInCycle = compile {} loopsInCycle) ∧
      (∀ (s : EmitState) (id : NodeId) (pin : PinId) (demand demand' : Demand), id ∈ s.inProgress →
        ((EmitM.evaluateStep demand id pin).run ⟨loopsInCycle, {}⟩).run.run s =
          ((EmitM.evaluateStep demand' id pin).run ⟨loopsInCycle, {}⟩).run.run s) ∧
      loopsInCycle.SearchesEnd := by
  have hkeyed : loopsInCycle.IsKeyed := by decide +kernel
  exact ⟨hkeyed, compile_ends {} hkeyed⟩

end ShaderGraph
