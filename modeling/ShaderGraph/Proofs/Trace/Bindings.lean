import ShaderGraph.Proofs.Trace.Scopes

/-!
# Distinct bindings

An emitter binds each output of its node at most once, in the stage in which it started, and what it
demands binds outputs of nodes that were not running. So no pin is bound twice in a stage at any moment.
-/

namespace ShaderGraph

open EmitM

/-- No pin is bound twice in a stage. -/
def EmitState.IsDistinct (s : EmitState) : Prop :=
  ∀ stage, (s.shader stage).boundPins.Nodup

/-- The pins that an action may bind in a stage: the outputs `names` of the node whose emitter acts,
and the outputs of nodes that are not running. -/
def MayBind (g : Graph) (own? : Option Node) (names : List String) (s : EmitState)
    (stage : ShaderStage) (pin : PinId) : Prop :=
  (stage = s.stage ∧ ∃ n ∈ own?, ∃ name ∈ names, ∃ p, n.output? name = some p ∧ p.id = pin) ∨
    ∃ n ∈ g.nodes.values, n.id ∉ s.inProgress ∧ ∃ p ∈ n.outputs, p.id = pin

/-- The node is running, and its outputs `names` have not been bound. -/
structure ActsFor (g : Graph) (own? : Option Node) (names : List String) (s : EmitState) : Prop where
  node : ∀ n ∈ own?, n ∈ g.nodes.values ∧ n.id ∈ s.inProgress
  nodup : names.Nodup
  unbound : ∀ n ∈ own?, ∀ name ∈ names, ∀ p, n.output? name = some p →
    p.id ∉ (s.shader s.stage).boundPins

/-- No moment has a pin that is bound twice, and what is bound is what may be bound. -/
structure BindsOnce (g : Graph) (own? : Option Node) (names : List String) (s : EmitState)
    (τ : List Moment) (t : EmitState) : Prop where
  moments : ∀ m ∈ τ, m.state.IsDistinct
  last : t.IsDistinct
  bound : ∀ stage, ∀ pin ∈ (t.shader stage).boundPins,
    pin ∈ (s.shader stage).boundPins ∨ MayBind g own? names s stage pin

section

variable {g : Graph} {own? : Option Node} {names names' : List String} {s t u : EmitState}
  {τ σ : List Moment}

theorem BindsOnce.silent (hs : s.IsDistinct)
    (ht : ∀ stage, (t.shader stage).boundPins = (s.shader stage).boundPins) :
    BindsOnce g own? names s [] t where
  moments m hm := by cases hm
  last stage := by
    rw [ht]
    exact hs stage
  bound stage pin hpin := .inl (ht stage ▸ hpin)

/-- An output that is bound for the first time. -/
theorem BindsOnce.output {n : Node} {name : String} {p : Pin} {e : Event}
    (hfor : ActsFor g (some n) [name] s) (hp : n.output? name = some p) (hs : s.IsDistinct)
    (hother : ∀ stage, stage ≠ s.stage → (t.shader stage).boundPins = (s.shader stage).boundPins)
    (ht : (t.shader s.stage).boundPins.Perm (p.id :: (s.shader s.stage).boundPins)) :
    BindsOnce g (some n) [name] s [⟨e, t⟩] t := by
  have hunbound : p.id ∉ (s.shader s.stage).boundPins :=
    hfor.unbound n rfl name List.mem_cons_self p hp
  have hdistinct : t.IsDistinct := by
    intro stage
    by_cases hstage : stage = s.stage
    · subst hstage
      exact ht.nodup_iff.mpr (List.nodup_cons.mpr ⟨hunbound, hs s.stage⟩)
    · rw [hother stage hstage]
      exact hs stage
  refine ⟨fun m hm ↦ ?_, hdistinct, fun stage pin hpin ↦ ?_⟩
  · obtain rfl := List.mem_singleton.mp hm
    exact hdistinct
  · by_cases hstage : stage = s.stage
    · subst hstage
      rcases List.mem_cons.mp (ht.mem_iff.mp hpin) with rfl | hpin
      · exact .inr (.inl ⟨rfl, n, rfl, name, List.mem_cons_self, p, hp, rfl⟩)
      · exact .inl hpin
    · exact .inl (hother stage hstage ▸ hpin)

theorem boundPins_congr {a b : StageShader} (h : b.table = a.table) : b.boundPins = a.boundPins :=
  congrArg ScopeTable.bound h

theorem boundPins_beginCapture (s : EmitState) (stage : ShaderStage) :
    (s.beginCapture.shader stage).boundPins = (s.shader stage).boundPins := by
  have htable := (Follows.openScope s).1 stage
  rw [← StageShader.bound_table, htable]
  split <;> rfl

theorem boundPins_endCapture_sublist (s : EmitState) (stage other : ShaderStage) :
    ((s.endCapture stage).shader other).boundPins.Sublist (s.shader other).boundPins := by
  have htable := (Follows.closeScope s stage).1 other
  rw [← StageShader.bound_table, htable]
  split
  · exact (List.drop_sublist _ _).append_right _
  · exact List.Sublist.refl _

/-- What is done in a scope that is closed in the end. -/
theorem BindsOnce.capture (hs : s.IsDistinct) (h : BindsOnce g own? names s.beginCapture τ u) :
    BindsOnce g own? names s
      (⟨.openScope, s.beginCapture⟩ :: (τ ++ [⟨.closeScope, u.endCapture s.stage⟩]))
      (u.endCapture s.stage) where
  moments m hm := by
    simp only [List.mem_cons, List.mem_append, List.not_mem_nil, or_false] at hm
    obtain rfl | hm | rfl := hm
    · intro stage
      rw [boundPins_beginCapture]
      exact hs stage
    · exact h.moments m hm
    · exact fun stage ↦ (h.last stage).sublist (boundPins_endCapture_sublist ..)
  last stage := (h.last stage).sublist (boundPins_endCapture_sublist ..)
  bound stage pin hpin := by
    have hbound := h.bound stage pin ((boundPins_endCapture_sublist ..).subset hpin)
    rwa [boundPins_beginCapture, MayBind, EmitState.beginCapture, EmitState.stage_modifyShader,
      EmitState.inProgress_modifyShader] at hbound

/-- What an emitter binds after some of the outputs of its node. -/
theorem ActsFor.next (hlaidOut : g.IsLaidOut) (hfor : ActsFor g own? (names ++ names') s)
    (h : BindsOnce g own? names s τ t) (hkeeps : s.Keeps (ownPins own?) t) :
    ActsFor g own? names' t where
  node n hn := by
    rw [hkeeps.inProgress]
    exact hfor.node n hn
  nodup := (List.nodup_append.mp hfor.nodup).2.1
  unbound n hn name hname p hp hbound := by
    rw [hkeeps.stage] at hbound
    obtain ⟨hmem, hrunning⟩ := hfor.node n hn
    obtain hbound | ⟨-, n', hn', name', hname', q, hq, hid⟩ | ⟨n', hn', hidle, q, hq, hid⟩ :=
      h.bound s.stage p.id hbound
    · exact hfor.unbound n hn name (List.mem_append_right _ hname) p hp hbound
    · cases Option.mem_unique hn hn'
      obtain rfl := hlaidOut.pins_inj hmem (Node.mem_outputs hq) (Node.mem_outputs hp) hid
      obtain rfl := (Node.name_of_output? hq).symm.trans (Node.name_of_output? hp)
      exact (List.nodup_append.mp hfor.nodup).2.2 _ hname' _ hname rfl
    · obtain rfl : n' = n := Graph.HasDistinctPins.node_eq hlaidOut.pins hn' hmem
        (List.mem_map_of_mem (List.mem_append_right _ hq))
        (hid ▸ List.mem_map_of_mem (List.mem_append_right _ (Node.mem_outputs hp)))
      exact hidle hrunning

theorem ActsFor.prefix_names (hfor : ActsFor g own? (names ++ names') s) : ActsFor g own? names s where
  node := hfor.node
  nodup := (List.nodup_append.mp hfor.nodup).1
  unbound n hn name hname := hfor.unbound n hn name (List.mem_append_left _ hname)

/-- An emitter that starts has bound no output of its node. -/
theorem ActsFor.start {n : Node} (hn : n ∈ g.nodes.values) (hnames : names.Nodup)
    (hunbound : ∀ p ∈ n.outputs, s.binding? p.id = none) :
    ActsFor g (some n) names (s.beginNode n.id) where
  node n' hn' := by
    cases hn'
    exact ⟨hn, List.mem_cons_self⟩
  nodup := hnames
  unbound n' hn' name _ p hp hbound := by
    cases hn'
    have hsome := StageShader.isSome_binding?_iff.mpr hbound
    change (s.binding? p.id).isSome at hsome
    simp [hunbound p (Node.mem_outputs hp)] at hsome

theorem MayBind.append (hkeeps : s.Keeps (ownPins own?) t) {stage : ShaderStage} {pin : PinId}
    (h : MayBind g own? names s stage pin ∨ MayBind g own? names' t stage pin) :
    MayBind g own? (names ++ names') s stage pin := by
  obtain (⟨hstage, n, hn, name, hname, hp⟩ | h) | (⟨hstage, n, hn, name, hname, hp⟩ | h) := h
  · exact .inl ⟨hstage, n, hn, name, List.mem_append_left _ hname, hp⟩
  · exact .inr h
  · exact .inl ⟨hstage.trans hkeeps.stage, n, hn, name, List.mem_append_right _ hname, hp⟩
  · exact .inr (hkeeps.inProgress ▸ h)

theorem BindsOnce.append (h : BindsOnce g own? names s τ t) (h' : BindsOnce g own? names' t σ u)
    (hkeeps : s.Keeps (ownPins own?) t) : BindsOnce g own? (names ++ names') s (τ ++ σ) u where
  moments m hm := (List.mem_append.mp hm).elim (h.moments m) (h'.moments m)
  last := h'.last
  bound stage pin hpin := by
    obtain hpin | hmay := h'.bound stage pin hpin
    · exact (h.bound stage pin hpin).imp_right fun hmay ↦ .append hkeeps (.inl hmay)
    · exact .inr (.append hkeeps (.inr hmay))

/-- The run of an emitter of which no output is bound. -/
theorem BindsOnce.node {n : Node} (hn : n ∈ g.nodes.values) (hidle : n.id ∉ s.inProgress)
    (hs : s.IsDistinct) (h : BindsOnce g (some n) names (s.beginNode n.id) τ u) :
    BindsOnce g own? names' s (⟨.start n.id, s.beginNode n.id⟩ :: τ) (u.endNode n.id) where
  moments m hm := by
    obtain rfl | hm := List.mem_cons.mp hm
    · intro stage
      have hstage := hs stage
      cases stage <;> exact hstage
    · exact h.moments m hm
  last stage := by
    have hlast := h.last stage
    cases stage <;> exact hlast
  bound stage pin hpin := by
    have hpin' : pin ∈ (u.shader stage).boundPins := by cases stage <;> exact hpin
    obtain hpin | ⟨-, n', hn', name, -, p, hp, rfl⟩ | ⟨n', hn', hidle', hp⟩ := h.bound stage pin hpin'
    · exact .inl (by cases stage <;> exact hpin)
    · cases hn'
      exact .inr (.inr ⟨n, hn, hidle, p, Node.mem_outputs hp, rfl⟩)
    · exact .inr (.inr ⟨n', hn', fun h ↦ hidle' (List.mem_cons_of_mem _ h), hp⟩)

end

/-- The outputs of the node have different names. -/
def Node.HasDistinctOutputs (n : Node) : Prop :=
  (n.outputs.map Pin.name).Nodup

instance (n : Node) : Decidable n.HasDistinctOutputs :=
  inferInstanceAs (Decidable (List.Nodup _))

theorem Traced.bindsOnce {env : EmitEnv} (hkeyed : env.graph.IsKeyed)
    (hlaidOut : env.graph.IsLaidOut)
    (hnames : ∀ n ∈ env.graph.nodes.values, n.HasDistinctOutputs) {depth : Nat} {own? : Option Node}
    {names : List String} {α : Type} {x : Demand → EmitM α} {s t : EmitState} {τ : List Moment}
    {r : Except CompileError α} (h : Traced env depth own? names x s τ r t)
    (hfor : ActsFor env.graph own? names s) (hs : s.IsDistinct) :
    BindsOnce env.graph own? names s τ t := by
  induction h with
  | quiet _ hwritten => exact .silent hs fun stage ↦ boundPins_congr (Follows.written hwritten stage)
  | bind hx _ ih ih' =>
    have hfirst := ih hfor.prefix_names hs
    have hkeeps := hx.keeps hkeyed
    exact hfirst.append (ih' (hfor.next hlaidOut hfirst hkeeps) hfirst.last) hkeeps
  | fail _ ih => exact ih hfor hs
  | @output _ n name p v s hp =>
    refine .output hfor hp hs (fun stage hstage ↦ ?_) (.of_eq ?_)
    · rw [EmitState.bindPin, EmitState.shader_modifyShader_of_ne _ _ hstage]
    · rw [EmitState.bindPin, EmitState.shader_modifyShader]
      rfl
  | retype => exact .silent hs fun stage ↦ boundPins_congr (Follows.retype _ _ _ stage)
  | @outer _ n name p v s t hp hstage ht =>
    subst ht
    refine .output hfor hp hs (fun stage hne ↦ ?_) ?_
    · rw [EmitState.shader_modifyShader_of_ne _ _ (hstage ▸ hne)]
    · rw [hstage, EmitState.shader_modifyShader]
      have hpins : ((s.shader .pixel).bindOuter p.id v).boundPins =
          (s.shader .pixel).boundPins ++ [p.id] := by
        simp [StageShader.boundPins, StageShader.bindOuter]
      rw [hpins]
      exact List.perm_append_singleton _ _
  | capture _ _ ih =>
    refine .capture hs (ih ⟨?_, hfor.nodup, ?_⟩ fun stage ↦ ?_)
    · rw [EmitState.beginCapture, EmitState.inProgress_modifyShader]
      exact hfor.node
    · simp only [boundPins_beginCapture]
      rw [EmitState.beginCapture, EmitState.stage_modifyShader]
      exact hfor.unbound
    · rw [boundPins_beginCapture]
      exact hs stage
  | cross _ _ ih =>
    have hinner := ih ⟨by simp, List.nodup_nil, by simp⟩ fun stage ↦ by
      have hstage := hs stage
      cases stage <;> exact hstage
    refine ⟨hinner.moments, fun stage ↦ ?_, fun stage pin hpin ↦ ?_⟩
    · have hlast := hinner.last stage
      cases stage <;> exact hlast
    · have hbound := hinner.bound stage pin (by cases stage <;> exact hpin)
      obtain hpin | ⟨-, n, hn, -⟩ | hbound := hbound
      · exact .inl (by cases stage <;> exact hpin)
      · cases hn
      · exact .inr (.inr hbound)
  | find => exact .silent hs fun _ ↦ rfl
  | @start _ _ _ _ n _ s _ _ _ _ _ hstarts _ hdistinct _ ih =>
    have hn := Graph.node?_mem hstarts.node
    have hidle : n.id ∉ s.inProgress := hkeyed.id_eq hstarts.node ▸ hstarts.idle
    exact .node hn hidle hs (ih
      (.start hn (hdistinct (hlaidOut.nodes n hn) (hnames n hn)) hstarts.outputs_unbound) fun stage ↦ by
        have hstage := hs stage
        cases stage <;> exact hstage)

theorem Traced.bindsOnce_node {env : EmitEnv} (hkeyed : env.graph.IsKeyed)
    (hlaidOut : env.graph.IsLaidOut)
    (hnames : ∀ n ∈ env.graph.nodes.values, n.HasDistinctOutputs) {depth : Nat} {own? : Option Node}
    {n : Node} {names names' : List String} {s u : EmitState} {τ : List Moment}
    {r : Except CompileError Unit} (hn : n ∈ env.graph.nodes.values) (hidle : n.id ∉ s.inProgress)
    (hdistinct : n.IsLaidOut → n.HasDistinctOutputs → names.Nodup)
    (hunbound : ∀ p ∈ n.outputs, s.binding? p.id = none) (hs : s.IsDistinct)
    (h : Traced env depth (some n) names (fun demand ↦ emitKind demand n) (s.beginNode n.id) τ r u) :
    BindsOnce env.graph own? names' s (⟨.start n.id, s.beginNode n.id⟩ :: τ) (u.endNode n.id) :=
  .node hn hidle hs (h.bindsOnce hkeyed hlaidOut hnames
    (.start hn (hdistinct (hlaidOut.nodes n hn) (hnames n hn)) hunbound) fun stage ↦ by
      have hstage := hs stage
      cases stage <;> exact hstage)

end ShaderGraph
