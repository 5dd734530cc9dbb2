import ShaderGraph.Proofs.Data.Lists
import ShaderGraph.Proofs.Scope.Program
import ShaderGraph.Proofs.Trace.Bindings
import ShaderGraph.Proofs.Trace.Memo

/-!
# Memoized compilations

The moments of a whole emission are those of the emitters of the pixel output and of the vertex outputs
one after another. In both stages the bindings are a memo: as long as the scopes stay open in which the
outputs of a node were bound, its emitter does not start again.
-/

namespace ShaderGraph

open EmitM

/-! ## Terminal nodes -/

/-- The moments in which the emitters of nodes run one after another, until one of them fails. No output
of these nodes is demanded. -/
inductive NodesTraced (env : EmitEnv) :
    List Node → EmitState → List Moment → Except CompileError Unit → EmitState → Prop
  | nil {s : EmitState} : NodesTraced env [] s [] (.ok ()) s
  | run {n : Node} {ns : List Node} {names : List String} {s t u : EmitState} {τ σ : List Moment}
    {r : Except CompileError Unit}
    (h : Traced env (emissionDepth env.graph) (some n) names (fun demand ↦ emitKind demand n)
      (s.beginNode n.id) τ (.ok ()) t)
    (hnames : n.IsLaidOut → n.HasDistinctOutputs → names.Nodup)
    (hrest : NodesTraced env ns (t.endNode n.id) σ r u) :
    NodesTraced env (n :: ns) s (⟨.start n.id, s.beginNode n.id⟩ :: τ ++ σ) r u
  | fail {n : Node} {ns : List Node} {names : List String} {s t : EmitState} {τ : List Moment}
    {e : CompileError}
    (h : Traced env (emissionDepth env.graph) (some n) names (fun demand ↦ emitKind demand n)
      (s.beginNode n.id) τ (.error e) t)
    (hnames : n.IsLaidOut → n.HasDistinctOutputs → names.Nodup) :
    NodesTraced env (n :: ns) s (⟨.start n.id, s.beginNode n.id⟩ :: τ) (.error e) (t.endNode n.id)

/-- Nodes without outputs, each of them once, none of which is running. -/
structure AreTerminals (g : Graph) (ns : List Node) (s : EmitState) : Prop where
  mem : ∀ n ∈ ns, n ∈ g.nodes.values
  node : ∀ n ∈ ns, g.node? n.id = some n
  outputs : ∀ n ∈ ns, n.outputs = []
  distinct : (ns.map Node.id).Nodup
  inProgress : s.inProgress = []

section Nodes

variable {env : EmitEnv} {n : Node} {ns : List Node} {s t u : EmitState} {τ : List Moment}
  {r : Except CompileError Unit}

theorem exists_nodesTraced (env : EmitEnv) (ns : List Node) (s : EmitState) :
    ∃ τ r t, NodesTraced env ns s τ r t := by
  induction ns generalizing s with
  | nil => exact ⟨[], .ok (), s, .nil⟩
  | cons n ns ih =>
    obtain ⟨names, hnames, hemit⟩ := traceable_emitKind (demandable env (emissionDepth env.graph)) n
    obtain ⟨names', τ, r, t, hsub, htraced⟩ := hemit (s.beginNode n.id)
    have hnames' : n.IsLaidOut → n.HasDistinctOutputs → names'.Nodup := fun hlaidOut hdistinct ↦
      (hnames hlaidOut hdistinct).sublist hsub
    cases r with
    | error e => exact ⟨_, _, _, .fail htraced hnames'⟩
    | ok _ =>
      obtain ⟨σ, r, u, hrest⟩ := ih (t.endNode n.id)
      exact ⟨_, r, u, .run htraced hnames' hrest⟩

theorem Traced.ends_runNode {names : List String}
    (h : Traced env (emissionDepth env.graph) (some n) names (fun demand ↦ emitKind demand n)
      (s.beginNode n.id) τ r t) : Ends env (runNode evaluate n) s r (t.endNode n.id) := by
  rw [Ends, Lock.Lockstep.run_runNode, h.ends (run_evaluate env)]
  cases r <;> rfl

theorem NodesTraced.ends (h : NodesTraced env ns s τ r t) :
    Ends env (ns.forM (runNode evaluate)) s r t := by
  induction h with
  | nil => rfl
  | run hn _ _ ih => exact ends_bind_ok hn.ends_runNode ih
  | fail hn => exact ends_bind_error hn.ends_runNode

theorem AreTerminals.tail (h : AreTerminals env.graph (n :: ns) s) (ht : t.inProgress = []) :
    AreTerminals env.graph ns t where
  mem n hn := h.mem n (List.mem_cons_of_mem _ hn)
  node n hn := h.node n (List.mem_cons_of_mem _ hn)
  outputs n hn := h.outputs n (List.mem_cons_of_mem _ hn)
  distinct := (List.nodup_cons.mp h.distinct).2
  inProgress := ht

theorem AreTerminals.keeps (hkeyed : env.graph.IsKeyed) {names : List String}
    (hterminals : AreTerminals env.graph (n :: ns) s)
    (h : Traced env (emissionDepth env.graph) (some n) names (fun demand ↦ emitKind demand n)
      (s.beginNode n.id) τ r t) : s.Keeps [] (t.endNode n.id) :=
  .node (by simp [hterminals.inProgress]) (by simp [hterminals.outputs n List.mem_cons_self])
    (h.keeps hkeyed)

theorem AreTerminals.outputs_eq {g : Graph} (h : AreTerminals g ns s) :
    ∀ id ∈ ns.map Node.id, ∀ n, g.node? id = some n → n.outputs = [] := by
  intro id hid n hn
  obtain ⟨m, hm, rfl⟩ := List.mem_map.mp hid
  cases (h.node m hm).symm.trans hn
  exact h.outputs _ hm

/-- The run of the emitter of a terminal node. -/
theorem AreTerminals.recorded_node (hkeyed : env.graph.IsKeyed) (hsources : env.graph.HasSources)
    {names : List String} (hterminals : AreTerminals env.graph (n :: ns) s)
    (h : Traced env (emissionDepth env.graph) (some n) names (fun demand ↦ emitKind demand n)
      (s.beginNode n.id) τ r t) :
    Recorded env.graph [n.id] s (⟨.start n.id, s.beginNode n.id⟩ :: τ) (t.endNode n.id) ∧
      (r.isOk →
        Covered env.graph [n.id] (⟨.start n.id, s.beginNode n.id⟩ :: τ) (t.endNode n.id)) := by
  obtain ⟨hrecorded, hcovered⟩ := h.recorded hkeyed hsources
  have hidle : ∀ m ∈ τ, m.event ≠ .start n.id := fun m hm hevent ↦
    h.idle hkeyed m hm n.id hevent List.mem_cons_self
  refine ⟨hrecorded.node hidle (.inl List.mem_cons_self) fun id hid ↦ ?_, fun hok ↦
    (hcovered hok).node (.inl List.mem_cons_self)⟩
  exact hterminals.outputs_eq id (by simp_all)

theorem NodesTraced.recorded (hkeyed : env.graph.IsKeyed) (hsources : env.graph.HasSources)
    (h : NodesTraced env ns s τ r t) (hterminals : AreTerminals env.graph ns s) :
    Recorded env.graph (ns.map Node.id) s τ t ∧
      (r.isOk → Covered env.graph (ns.map Node.id) τ t ∧ t.inProgress = []) := by
  induction h with
  | nil => exact ⟨.silent fun _ ↦ rfl, fun _ ↦ ⟨.of_not_start (by simp), hterminals.inProgress⟩⟩
  | @run n ns _ s t u τ σ r hn _ _ ih =>
    obtain ⟨hfirst, hcovered⟩ := hterminals.recorded_node hkeyed hsources hn
    have hkeeps := hterminals.keeps hkeyed hn
    obtain ⟨hrest, hcovered'⟩ := ih (hterminals.tail (hkeeps.inProgress.trans hterminals.inProgress))
    have hdisjoint : ∀ id ∈ [n.id], id ∉ ns.map Node.id := by
      simpa using (List.nodup_cons.mp hterminals.distinct).1
    refine ⟨hfirst.append hrest (.inr (hcovered rfl)) hdisjoint, fun hok ↦ ?_⟩
    obtain ⟨hrestCovered, hinProgress⟩ := hcovered' hok
    exact ⟨(hcovered rfl).append hrestCovered hrest.follows, hinProgress⟩
  | fail hn _ =>
    exact ⟨(hterminals.recorded_node hkeyed hsources hn).1.weaken (by simp) hterminals.outputs_eq,
      fun hok ↦ by cases hok⟩

/-- No pin is bound twice in the course of the emitters of terminal nodes. -/
theorem NodesTraced.isDistinct (hkeyed : env.graph.IsKeyed) (hlaidOut : env.graph.IsLaidOut)
    (hnames : ∀ n ∈ env.graph.nodes.values, n.HasDistinctOutputs) (h : NodesTraced env ns s τ r t)
    (hterminals : AreTerminals env.graph ns s) (hs : s.IsDistinct) :
    (∀ m ∈ τ, m.state.IsDistinct) ∧ t.IsDistinct := by
  have hnode {n : Node} {ns : List Node} {names : List String} {s t : EmitState} {τ : List Moment}
      {r : Except CompileError Unit} (hterminals : AreTerminals env.graph (n :: ns) s)
      (hs : s.IsDistinct) (hdistinct : n.IsLaidOut → n.HasDistinctOutputs → names.Nodup)
      (h : Traced env (emissionDepth env.graph) (some n) names (fun demand ↦ emitKind demand n)
        (s.beginNode n.id) τ r t) :
      BindsOnce env.graph none [] s (⟨.start n.id, s.beginNode n.id⟩ :: τ) (t.endNode n.id) := by
    have hn := hterminals.mem n List.mem_cons_self
    refine h.bindsOnce_node hkeyed hlaidOut hnames hn (by simp [hterminals.inProgress]) hdistinct
      ?_ hs
    simp [hterminals.outputs n List.mem_cons_self]
  induction h with
  | nil => exact ⟨by simp, hs⟩
  | run hn hdistinct _ ih =>
    have hfirst := hnode hterminals hs hdistinct hn
    have hkeeps := hterminals.keeps hkeyed hn
    obtain ⟨hmoments, hlast⟩ :=
      ih (hterminals.tail (hkeeps.inProgress.trans hterminals.inProgress)) hfirst.last
    exact ⟨fun m hm ↦ (List.mem_append.mp hm).elim (hfirst.moments m) (hmoments m), hlast⟩
  | fail hn hdistinct =>
    have hfirst := hnode hterminals hs hdistinct hn
    exact ⟨hfirst.moments, hfirst.last⟩

theorem NodesTraced.not_closeScope (hkinds : ∀ n ∈ env.graph.nodes.values, n.kind.opensScope = false)
    (h : NodesTraced env ns s τ r t) (hns : ∀ n ∈ ns, n ∈ env.graph.nodes.values) :
    ∀ m ∈ τ, m.event ≠ .closeScope := by
  have hnode {n : Node} {names : List String} {s t : EmitState} {τ : List Moment}
      {r : Except CompileError Unit} (hn : n ∈ env.graph.nodes.values)
      (h : Traced env (emissionDepth env.graph) (some n) names (fun demand ↦ emitKind demand n)
        (s.beginNode n.id) τ r t) :
      ∀ m ∈ (⟨.start n.id, s.beginNode n.id⟩ :: τ : List Moment), m.event ≠ .closeScope := by
    intro m hm
    obtain rfl | hm := List.mem_cons.mp hm
    · simp
    · exact h.not_closeScope hkinds (by simpa using hn) m hm
  induction h with
  | nil => simp
  | run hn _ _ ih =>
    intro m hm
    rcases List.mem_append.mp hm with hm | hm
    · exact hnode (hns _ List.mem_cons_self) hn m hm
    · exact ih (fun n hn ↦ hns n (List.mem_cons_of_mem _ hn)) m hm
  | fail hn => exact hnode (hns _ List.mem_cons_self) hn

end Nodes

/-! ## Emissions -/

/-- The moments of an emission, and the state in which it ends or the error with which it fails. A graph
that is not valid or has no single pixel output is rejected before anything happens. -/
inductive EmissionTraced (settings : Settings) (g : Graph) :
    List Moment → Except CompileError EmitState → Prop
  | rejected {e : CompileError}
    (h : (g.validate.mapError (GraphError.toCompileError g) >>= fun _ ↦ g.terminal) = .error e) :
    EmissionTraced settings g [] (.error e)
  | pixel {n : Node} {t : EmitState} {τ : List Moment} {e : CompileError}
    (hvalid : g.validate = .ok ()) (hterminal : g.terminal = .ok n)
    (hpixel : NodesTraced ⟨g, settings⟩ [n] {} τ (.error e) t) :
    EmissionTraced settings g τ (.error e)
  | vertex {n : Node} {t u : EmitState} {τ σ : List Moment} {r : Except CompileError Unit}
    (hvalid : g.validate = .ok ()) (hterminal : g.terminal = .ok n)
    (hpixel : NodesTraced ⟨g, settings⟩ [n] {} τ (.ok ()) t)
    (hvertex : NodesTraced ⟨g, settings⟩ (g.nodesOfKind NodeKind.isVertexOutput)
      { t with stage := .vertex } σ r u) :
    EmissionTraced settings g (τ ++ σ) (r.map fun _ ↦ { u with stage := .pixel })

/-- The bindings of the stages are a memo of the evaluations. -/
structure Memoizes (g : Graph) (τ : List Moment) : Prop where
  /-- At no moment is a pin bound twice in a stage. -/
  distinct : ∀ m ∈ τ, m.state.IsDistinct
  /-- Between two starts of an emitter in one stage the scope is closed in which it started first. -/
  popped : ∀ (m : Moment) (β : List Moment) (m' : Moment) γ id, m :: (β ++ m' :: γ) <:+ τ →
    m.event = .start id → m'.event = .start id → m'.stage = m.stage → Popped m.stage m.depth β
  /-- When an emitter starts, every output of its node that was bound in the stage was bound in a scope
  that has been closed since. -/
  unbound : ∀ b (β : List Moment) (m : Moment) γ id n p, b :: (β ++ m :: γ) <:+ τ →
    m.event = .start id → g.node? id = some n → p ∈ n.outputs → b.stage = m.stage →
      b.event ≠ .bindOuter p.id ∧ (b.event = .bind p.id → Popped m.stage b.depth β)
  /-- Without branches and loops the emitter of a node starts at most once in a stage. -/
  once : (∀ n ∈ g.nodes.values, n.kind.opensScope = false) → ∀ id stage,
    τ.countP (fun m ↦ m.event = .start id ∧ m.stage = stage) ≤ 1

section Emission

variable {settings : Settings} {g : Graph} {s t : EmitState} {τ : List Moment}
  {r : Except CompileError EmitState}

theorem exists_emissionTraced (settings : Settings) (g : Graph) :
    ∃ τ r, EmissionTraced settings g τ r := by
  cases hprepared : g.validate.mapError (GraphError.toCompileError g) >>= fun _ ↦ g.terminal with
  | error e => exact ⟨_, _, .rejected hprepared⟩
  | ok n =>
    cases hvalid : g.validate with
    | error e =>
      rw [hvalid] at hprepared
      cases hprepared
    | ok _ =>
      rw [hvalid] at hprepared
      obtain ⟨τ, r, t, hpixel⟩ := exists_nodesTraced ⟨g, settings⟩ [n] {}
      cases r with
      | error e => exact ⟨_, _, .pixel hvalid hprepared hpixel⟩
      | ok _ =>
        obtain ⟨σ, r, u, hvertex⟩ := exists_nodesTraced ⟨g, settings⟩
          (g.nodesOfKind NodeKind.isVertexOutput) { t with stage := .vertex }
        exact ⟨_, _, .vertex hvalid hprepared hpixel hvertex⟩

theorem emission_of_ends {n : Node} {r : Except CompileError Unit} (hvalid : g.validate = .ok ())
    (hterminal : g.terminal = .ok n)
    (h : Ends ⟨g, settings⟩ (emitProgram n (g.nodesOfKind NodeKind.isVertexOutput)) {} r t) :
    emission settings g = r.map fun _ ↦ t := by
  unfold emission
  rw [hvalid, hterminal]
  simp only [Except.mapError, bind, Except.bind]
  rw [h]
  cases r <;> rfl

/-- A trace tells how the emission ends. -/
theorem EmissionTraced.eq_emission (h : EmissionTraced settings g τ r) :
    emission settings g = r := by
  have hsingle (n : Node) : [n].forM (runNode evaluate) = runNode evaluate n := by
    simp [List.forM_cons]
  cases h with
  | rejected h =>
    unfold emission
    cases hvalid : g.validate.mapError (GraphError.toCompileError g) with
    | error e =>
      rw [hvalid] at h
      cases h
      rfl
    | ok _ =>
      rw [hvalid] at h
      change g.terminal = _ at h
      rw [h]
      rfl
  | pixel hvalid hterminal hpixel =>
    have hrun := hpixel.ends
    rw [hsingle] at hrun
    exact emission_of_ends hvalid hterminal
      (ends_bind_ok (t := {}) rfl (ends_bind_error hrun))
  | @vertex n t u _ _ r hvalid hterminal hpixel hvertex =>
    have hrun := hpixel.ends
    rw [hsingle] at hrun
    cases r with
    | error e =>
      exact emission_of_ends (t := u) hvalid hterminal (ends_bind_ok (t := {}) rfl
        (ends_bind_ok hrun (ends_bind_ok rfl (ends_bind_error hvertex.ends))))
    | ok _ =>
      exact emission_of_ends hvalid hterminal (ends_bind_ok (t := {}) rfl
        (ends_bind_ok hrun (ends_bind_ok rfl (ends_bind_ok hvertex.ends rfl))))

/-- The pixel output of a graph, and so its vertex outputs, are terminals. -/
theorem areTerminals (hdistinct : g.nodes.Distinct) (hkeyed : g.IsKeyed) (hlaidOut : g.IsLaidOut)
    {ns : List Node} (hsub : ns.Sublist g.nodes.values)
    (hkind : ∀ n ∈ ns, n.kind.outputPins = []) (hs : s.inProgress = []) : AreTerminals g ns s where
  mem n hn := hsub.subset hn
  node n hn := by
    obtain ⟨e, he, rfl⟩ := List.mem_map.mp (hsub.subset hn)
    exact hdistinct.get?_eq_some_iff.mpr (hkeyed e he ▸ he)
  outputs n hn := by
    have hnames := (hlaidOut.nodes n (hsub.subset hn)).outputs
    rw [hkind n hn] at hnames
    simpa using hnames
  distinct := by
    have hids : g.nodes.values.map Node.id = g.nodes.keys := by
      unfold OrderedMap.values OrderedMap.keys
      rw [List.map_map]
      exact List.map_congr_left hkeyed
    have hnodup : (g.nodes.values.map Node.id).Nodup := hids.symm ▸ hdistinct
    exact hnodup.sublist (hsub.map Node.id)
  inProgress := hs

theorem outputPins_of_isOutput {k : NodeKind} (h : k.isPixelOutput ∨ k.isVertexOutput) :
    k.outputPins = [] := by
  cases k <;> simp_all [NodeKind.isPixelOutput, NodeKind.isVertexOutput, NodeKind.outputPins]

theorem isVertexOutput_eq_false {k : NodeKind} (h : k.isPixelOutput) : k.isVertexOutput = false := by
  cases k <;> simp_all [NodeKind.isPixelOutput, NodeKind.isVertexOutput]

theorem Recorded.memoizes {T : List NodeId} {s t : EmitState} (h : Recorded g T s τ t)
    (hdistinct : ∀ m ∈ τ, m.state.IsDistinct)
    (hopen : (∀ n ∈ g.nodes.values, n.kind.opensScope = false) → ∀ m ∈ τ, m.event ≠ .closeScope) :
    Memoizes g τ where
  distinct := hdistinct
  popped := h.memoized
  unbound b β m γ id n p hτ hm hn hp hstage := by
    have hact := h.follows.act hτ
    refine ⟨fun hevent ↦ ?_, fun hevent ↦ ?_⟩
    · rw [hevent, hstage] at hact
      have hbound : (b.state.shader m.stage).table.BoundWithin 0 p.id := by
        obtain ⟨T, htable⟩ := hact
        rw [htable]
        exact .inl (List.mem_append_right _ List.mem_cons_self)
      obtain ⟨closed, -, -, -, hdepth⟩ := h.popped_of_bound hτ hm hn hp hbound
      cases hdepth
    · rw [hevent] at hact
      have hmem : p.id ∈ (b.state.shader b.stage).table.bound := by
        obtain ⟨T, htable⟩ := hact
        rw [htable]
        exact List.mem_append_left _ List.mem_cons_self
      have hbound := ScopeTable.boundWithin_of_mem hmem
      rw [StageShader.length_marks, hstage] at hbound
      have hpop := h.popped_of_bound hτ hm hn hp hbound
      rwa [← hstage] at hpop ⊢
  once hkinds id stage := by
    refine countP_le_one fun m β m' γ hτ hm hm' ↦ ?_
    simp only [decide_eq_true_eq] at hm hm'
    obtain ⟨closed, hmem, hclose, -⟩ :=
      h.memoized m β m' γ id hτ hm.1 hm'.1 (hm'.2.trans hm.2.symm)
    exact hopen hkinds closed (hτ.subset (by simp [hmem])) hclose

theorem EmissionTraced.memoizes (hdistinct : g.nodes.Distinct) (hkeyed : g.IsKeyed)
    (hlaidOut : g.IsLaidOut) (hnames : ∀ n ∈ g.nodes.values, n.HasDistinctOutputs)
    (h : EmissionTraced settings g τ r) : Memoizes g τ := by
  have hsources (hvalid : g.validate = .ok ()) : g.HasSources := by
    rintro id pin ⟨c, hc, rfl, rfl⟩
    exact hlaidOut.source_of_joins (Graph.joins_of_validate hvalid c hc)
  have hstart : ({} : EmitState).IsDistinct := fun stage ↦ by cases stage <;> exact List.nodup_nil
  have hpixelTerminal {n : Node} (hn : g.terminal = .ok n) : AreTerminals g [n] {} := by
    refine areTerminals hdistinct hkeyed hlaidOut
      (List.singleton_sublist.mpr (Graph.terminal_mem hn)) (fun n' hn' ↦ ?_) rfl
    obtain rfl := List.mem_singleton.mp hn'
    exact outputPins_of_isOutput (.inl (Graph.isPixelOutput_of_terminal hn))
  cases h with
  | rejected =>
    have hnone : Recorded g [] {} [] {} := .silent fun _ ↦ rfl
    exact hnone.memoizes (by simp) (by simp)
  | pixel hvalid hterminal hpixel =>
    have hn := hpixelTerminal hterminal
    exact (hpixel.recorded hkeyed (hsources hvalid) hn).1.memoizes
      (hpixel.isDistinct hkeyed hlaidOut hnames hn hstart).1
      fun hkinds ↦ hpixel.not_closeScope hkinds hn.mem
  | @vertex n t u τ σ r hvalid hterminal hpixel hvertex =>
    have hn := hpixelTerminal hterminal
    obtain ⟨hfirst, hcovered⟩ := hpixel.recorded hkeyed (hsources hvalid) hn
    obtain ⟨hcovered, hinProgress⟩ := hcovered rfl
    have hns : AreTerminals g (g.nodesOfKind NodeKind.isVertexOutput) { t with stage := .vertex } :=
      areTerminals hdistinct hkeyed hlaidOut List.filter_sublist
        (fun n hn ↦ outputPins_of_isOutput (.inr (by simpa using (List.mem_filter.mp hn).2)))
        hinProgress
    have hrest := (hvertex.recorded hkeyed (hsources hvalid) hns).1.congr (u := t) fun stage ↦ by
      cases stage <;> rfl
    have hdisjoint : ∀ id ∈ [n].map Node.id,
        id ∉ (g.nodesOfKind NodeKind.isVertexOutput).map Node.id := by
      intro id hid hid'
      obtain rfl := List.mem_singleton.mp hid
      obtain ⟨m, hm, hsame⟩ := List.mem_map.mp hid'
      have hnode := hns.node m hm
      rw [hsame, hn.node n List.mem_cons_self] at hnode
      cases hnode
      have hvertexKind : n.kind.isVertexOutput := by simpa using (List.mem_filter.mp hm).2
      simp [isVertexOutput_eq_false (Graph.isPixelOutput_of_terminal hterminal)] at hvertexKind
    obtain ⟨hmoments, hlast⟩ := hpixel.isDistinct hkeyed hlaidOut hnames hn hstart
    have hmoments' := (hvertex.isDistinct hkeyed hlaidOut hnames hns fun stage ↦ by
      have hstage := hlast stage
      cases stage <;> exact hstage).1
    exact (hfirst.append hrest (.inr hcovered) hdisjoint).memoizes
      (fun m hm ↦ (List.mem_append.mp hm).elim (hmoments m) (hmoments' m))
      fun hkinds m hm ↦ (List.mem_append.mp hm).elim (hpixel.not_closeScope hkinds hn.mem m)
        (hvertex.not_closeScope hkinds hns.mem m)

/-- Every compilation is traced, and in whatever way it is traced its bindings are a memo: where the
emitter of a node starts again in a stage, the scopes in which its outputs had been bound there are
closed, and no pin is ever bound twice in a stage. -/
theorem emission_memoizes (settings : Settings) {g : Graph} (hdistinct : g.nodes.Distinct)
    (hkeyed : g.IsKeyed) (hlaidOut : g.IsLaidOut)
    (hnames : ∀ n ∈ g.nodes.values, n.HasDistinctOutputs) :
    (∃ τ r, EmissionTraced settings g τ r) ∧ ∀ τ r, EmissionTraced settings g τ r →
      compile settings g = r.map (·.artifact settings) ∧ Memoizes g τ :=
  ⟨exists_emissionTraced settings g, fun _ _ h ↦
    ⟨by rw [compile_eq_map_emission, h.eq_emission], h.memoizes hdistinct hkeyed hlaidOut hnames⟩⟩

theorem emission_memoizes_loopInBranch :
    loopInBranch.nodes.Distinct ∧ loopInBranch.IsKeyed ∧ loopInBranch.IsLaidOut ∧
      (∀ n ∈ loopInBranch.nodes.values, n.HasDistinctOutputs) ∧ ∃ τ s,
      EmissionTraced {} loopInBranch τ (.ok s) ∧ compile {} loopInBranch = .ok (s.artifact {}) ∧
        Memoizes loopInBranch τ := by
  have hdistinct : loopInBranch.nodes.Distinct := by decide +kernel
  have hkeyed : loopInBranch.IsKeyed := by decide +kernel
  have hlaidOut : loopInBranch.IsLaidOut := by decide +kernel
  have hnames : ∀ n ∈ loopInBranch.nodes.values, n.HasDistinctOutputs := by decide +kernel
  obtain ⟨a, h⟩ := exists_compile_loopInBranch
  obtain ⟨⟨τ, r, htraced⟩, hmemoizes⟩ := emission_memoizes {} hdistinct hkeyed hlaidOut hnames
  obtain ⟨hcompile, hmemo⟩ := hmemoizes τ r htraced
  cases r with
  | error e =>
    rw [hcompile] at h
    cases h
  | ok s => exact ⟨hdistinct, hkeyed, hlaidOut, hnames, τ, s, htraced, hcompile, hmemo⟩

end Emission

end ShaderGraph
