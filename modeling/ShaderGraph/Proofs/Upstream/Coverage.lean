import Mathlib.Data.Set.Lattice
import ShaderGraph.Proofs.Emission.Moves
import ShaderGraph.Proofs.Graph.Wiring

/-!
# Coverage

At any time of an emission some nodes have been evaluated in a stage and others are being evaluated.
The inputs of an evaluated node have values, and the outputs that drive them belong to nodes that the
emission has entered. Since nothing is left running in the end, all nodes that feed a stage have been
evaluated in it.
-/

namespace ShaderGraph

open EmitM

/-- The stage in which the inputs of a kind are evaluated, if its outputs are evaluated in `stage`. -/
def NodeKind.inputStage (k : NodeKind) (stage : ShaderStage) : ShaderStage :=
  if k.isInterpolator then .vertex else stage

namespace Graph

/-- A node whose value is written where it is used. -/
def IsConstant (g : Graph) (id : NodeId) : Prop :=
  ∃ n value, g.node? id = some n ∧ n.kind = .scalar value

/-- The input is driven by a node that has been entered, or it needs no connection. -/
inductive Supplied (g : Graph) (entered : Set NodeId) (p : Pin) : Prop
  | driven {c : Connection} (hc : g.driver? p.id = some c)
    (h : c.fromNode ∈ entered ∨ g.IsConstant c.fromNode)
  | unconnected (hc : g.driver? p.id = none) (h : p.default?.isSome ∨ p.isOptional)

theorem Supplied.mono {g : Graph} {entered entered' : Set NodeId} {p : Pin}
    (hsub : entered ⊆ entered') (h : g.Supplied entered p) : g.Supplied entered' p := by
  cases h with
  | driven hc h => exact .driven hc (h.imp_left fun h ↦ hsub h)
  | unconnected hc h => exact .unconnected hc h

/-- Some output pin of a node. -/
def HasOutput (g : Graph) (id : NodeId) (pin : PinId) : Prop :=
  ∃ n p, g.node? id = some n ∧ p ∈ n.outputs ∧ p.id = pin

/-- The emission has evaluated the nodes `done` of each stage and is evaluating the nodes `running`. -/
structure Covered (g : Graph) (done running : ShaderStage → Set NodeId) (s : EmitState) : Prop where
  /-- Only outputs of nodes that have been entered are bound. -/
  bound : ∀ stage, ∀ pin ∈ (s.shader stage).boundPins,
    ∃ id ∈ done stage ∪ running stage, g.HasOutput id pin
  /-- A node is evaluated in a stage in which it works, after its inputs. -/
  settled : ∀ stage, ∀ id ∈ done stage, ∃ n, g.node? id = some n ∧ n.kind.runsIn stage ∧
    ∀ p ∈ n.inputs, g.Supplied (done (n.kind.inputStage stage) ∪ running (n.kind.inputStage stage)) p
  /-- An interpolator that has been evaluated in the pixel stage has a slot. -/
  crossed : ∀ id ∈ done .pixel, ∀ n, g.node? id = some n → n.kind.isInterpolator →
    ∃ p, n.output? "Output" = some p ∧ p.id ∈ s.pixel.outer.map Prod.fst
  feeds : ∀ id ∈ done .pixel ∪ running .pixel, g.FeedsPixel id

end Graph

/-- Demands of outputs evaluate their nodes. -/
def Demand.IsCovering (env : EmitEnv) (demand : Demand) : Prop :=
  ∀ id pin s v t, Returns env (demand id pin) s v t → ∀ done running, env.graph.Covered done running s →
    env.graph.HasOutput id pin → (s.stage = .pixel → env.graph.FeedsPixel id) →
    ∃ done', done ≤ done' ∧ env.graph.Covered done' running t ∧ id ∈ done' s.stage ∪ running s.stage

namespace Graph.Covered

variable {g : Graph} {done done' running : ShaderStage → Set NodeId} {n : Node} {s t : EmitState}

theorem entered_mono (hle : done ≤ done') (stage : ShaderStage) :
    done stage ∪ running stage ⊆ done' stage ∪ running stage :=
  Set.union_subset_union_left _ (hle stage)

theorem of_boundPins (h : g.Covered done running s)
    (hbound : ∀ stage, ∀ pin ∈ (t.shader stage).boundPins, pin ∈ (s.shader stage).boundPins ∨
      ∃ id ∈ done stage ∪ running stage, g.HasOutput id pin)
    (houter : ∀ pin ∈ s.pixel.outer.map Prod.fst, pin ∈ t.pixel.outer.map Prod.fst) :
    g.Covered done running t where
  bound stage pin hpin := (hbound stage pin hpin).elim (h.bound stage pin) id
  settled := h.settled
  crossed id hid n hn hkind := by
    obtain ⟨p, hp, hmem⟩ := h.crossed id hid n hn hkind
    exact ⟨p, hp, houter _ hmem⟩
  feeds := h.feeds

theorem congr (h : g.Covered done running s) (hvertex : t.vertex = s.vertex)
    (hpixel : t.pixel = s.pixel) : g.Covered done running t := by
  refine h.of_boundPins (fun stage pin hpin ↦ .inl ?_) fun pin hpin ↦ by rwa [hpixel]
  have hshader : t.shader stage = s.shader stage := by
    cases stage with
    | vertex => exact hvertex
    | pixel => exact hpixel
  rwa [hshader] at hpin

theorem move (h : g.Covered done running s) (hn : g.node? n.id = some n)
    (hrunning : n.id ∈ running s.stage) (hmove : Move n s t) : g.Covered done running t := by
  refine h.of_boundPins (fun stage pin hpin ↦ ?_) fun pin hpin ↦ ?_
  · refine (hmove.boundPins stage pin hpin).imp_right ?_
    rintro ⟨rfl, p, hp, hid⟩
    exact ⟨n.id, .inr hrunning, n, p, hn, hp, hid⟩
  · rwa [show t.pixel.outer = s.pixel.outer from hmove.outer .pixel]

/-- A node starts to run. -/
theorem start (h : g.Covered done running s) {stage : ShaderStage} {id : NodeId}
    (hfeeds : stage = .pixel → g.FeedsPixel id) :
    g.Covered done (Function.update running stage (insert id (running stage))) s := by
  have hsub (stage' : ShaderStage) : done stage' ∪ running stage' ⊆
      done stage' ∪ Function.update running stage (insert id (running stage)) stage' := by
    refine Set.union_subset_union_right _ ?_
    by_cases heq : stage' = stage
    · subst heq
      rw [Function.update_self]
      exact Set.subset_insert _ _
    · rw [Function.update_of_ne heq]
  refine ⟨fun stage' pin hpin ↦ ?_, fun stage' id' hid' ↦ ?_, h.crossed, fun id' hid' ↦ ?_⟩
  · obtain ⟨id', hid', houtput⟩ := h.bound stage' pin hpin
    exact ⟨id', hsub stage' hid', houtput⟩
  · obtain ⟨n, hn, hruns, hinputs⟩ := h.settled stage' id' hid'
    exact ⟨n, hn, hruns, fun p hp ↦ (hinputs p hp).mono (hsub _)⟩
  · by_cases heq : ShaderStage.pixel = stage
    · rw [← heq, Function.update_self] at hid'
      rcases hid' with hid' | rfl | hid'
      · exact h.feeds id' (.inl hid')
      · exact hfeeds heq.symm
      · exact h.feeds id' (.inr hid')
    · rw [Function.update_of_ne heq] at hid'
      exact h.feeds id' hid'

/-- A node whose inputs have been evaluated is done. -/
theorem finish {stage : ShaderStage} {id : NodeId}
    (h : g.Covered done (Function.update running stage (insert id (running stage))) s)
    (hn : g.node? id = some n) (hruns : n.kind.runsIn stage)
    (hinputs : ∀ p ∈ n.inputs, g.Supplied (done (n.kind.inputStage stage) ∪
      Function.update running stage (insert id (running stage)) (n.kind.inputStage stage)) p)
    (hcrossed : stage = .pixel → n.kind.isInterpolator →
      ∃ p, n.output? "Output" = some p ∧ p.id ∈ s.pixel.outer.map Prod.fst) :
    g.Covered (Function.update done stage (insert id (done stage))) running s := by
  -- The nodes that have been entered stay the same.
  have hsub (stage' : ShaderStage) :
      done stage' ∪ Function.update running stage (insert id (running stage)) stage' =
        Function.update done stage (insert id (done stage)) stage' ∪ running stage' := by
    by_cases heq : stage' = stage
    · subst heq
      rw [Function.update_self, Function.update_self, Set.union_insert, Set.insert_union]
    · rw [Function.update_of_ne heq, Function.update_of_ne heq]
  have hdone {stage' : ShaderStage} {id' : NodeId}
      (hid' : id' ∈ Function.update done stage (insert id (done stage)) stage') :
      (stage' = stage ∧ id' = id) ∨ id' ∈ done stage' := by
    by_cases heq : stage' = stage
    · subst heq
      rw [Function.update_self] at hid'
      exact hid'.imp_left fun h ↦ ⟨rfl, h⟩
    · rw [Function.update_of_ne heq] at hid'
      exact .inr hid'
  refine ⟨fun stage' pin hpin ↦ ?_, fun stage' id' hid' ↦ ?_, fun id' hid' m hm hkind ↦ ?_,
    fun id' hid' ↦ ?_⟩
  · obtain ⟨id', hid', houtput⟩ := h.bound stage' pin hpin
    exact ⟨id', hsub stage' ▸ hid', houtput⟩
  · rcases hdone hid' with ⟨rfl, rfl⟩ | hid'
    · exact ⟨n, hn, hruns, fun p hp ↦ (hinputs p hp).mono (hsub _).subset⟩
    · obtain ⟨n, hn, hruns, hinputs⟩ := h.settled stage' id' hid'
      exact ⟨n, hn, hruns, fun p hp ↦ (hinputs p hp).mono (hsub _).subset⟩
  · rcases hdone hid' with ⟨hstage, rfl⟩ | hid'
    · obtain rfl := Option.some.inj (hn.symm.trans hm)
      exact hcrossed hstage.symm hkind
    · exact h.crossed id' hid' m hm hkind
  · exact h.feeds id' (hsub .pixel ▸ hid')

/-- A value is carried over to the pixel stage. -/
theorem carry (h : g.Covered done running s) (d : Dialect) (v : Variable) {p : Pin}
    (hn : g.node? n.id = some n) (hrunning : n.id ∈ running .pixel) (hp : p ∈ n.outputs) :
    g.Covered done running (s.carry d p.id v) := by
  have hmain : (s.carry d p.id v).vertex.boundPins = s.vertex.boundPins := by
    unfold EmitState.carry EmitState.modifyShader StageShader.modifyBody StageShader.modifyBlock
    dsimp only
    split <;> rfl
  refine h.of_boundPins (fun stage pin hpin ↦ ?_) fun pin hpin ↦ ?_
  · cases stage with
    | vertex =>
      change pin ∈ (s.carry d p.id v).vertex.boundPins at hpin
      rw [hmain] at hpin
      exact .inl hpin
    | pixel =>
      have hpin : pin ∈ s.pixel.bindings.map Prod.fst ++
          (s.pixel.outer ++ [(p.id, _)]).map Prod.fst := hpin
      rw [List.map_append, ← List.append_assoc] at hpin
      rcases List.mem_append.mp hpin with hpin | hpin
      · exact .inl hpin
      · obtain rfl := List.mem_singleton.mp hpin
        exact .inr ⟨n.id, .inr hrunning, n, p, hn, hp, rfl⟩
  · change pin ∈ (s.pixel.outer ++ [_]).map Prod.fst
    rw [List.map_append]
    exact List.mem_append_left _ hpin

end Graph.Covered

/-! ## Runs of emitters -/

section Runs

variable {env : EmitEnv} {demand : Demand} {n : Node} {s t : EmitState}
  {done running : ShaderStage → Set NodeId}

theorem Moves.covered (hg : env.graph.IsWired) (hstage : demand.KeepsStage env)
    (hdemand : demand.IsCovering env) {pins : List String} (hmoves : Moves env demand n pins s t)
    (h : env.graph.Covered done running s) (hn : env.graph.node? n.id = some n)
    (hrunning : n.id ∈ running s.stage)
    (hfeeds : s.stage = .pixel → env.graph.FeedsPixel n.id ∧ n.kind.isInterpolator = false) :
    ∃ done', done ≤ done' ∧ env.graph.Covered done' running t ∧ ∀ name ∈ pins, ∀ p,
      n.input? name = some p → env.graph.Supplied (done' s.stage ∪ running s.stage) p := by
  -- The outputs that are demanded are upstream of the node.
  have hupstream {p : Pin} (hp : p ∈ n.inputs) {o : OutputRef}
      (ho : env.graph.Upstream NodeKind.isInterpolator p.id o) :
      env.graph.HasOutput o.node o.pin ∧ (s.stage = .pixel → env.graph.FeedsPixel o.node) :=
    ⟨hg.upstream_output ho, fun hpixel ↦
      (hfeeds hpixel).1.upstream hg hn (hfeeds hpixel).2 hp ho⟩
  induction hmoves with
  | refl => exact ⟨done, le_refl _, h, by simp⟩
  | move hfirst hmove ih =>
    obtain ⟨done', hle, hcovered, hpins⟩ := ih h hrunning hfeeds hupstream
    have hback := hfirst.stage_eq hstage
    exact ⟨done', hle, hcovered.move hn (hback ▸ hrunning) hmove, hpins⟩
  | hoist hfirst ho hrun ih =>
    obtain ⟨done', hle, hcovered, hpins⟩ := ih h hrunning hfeeds hupstream
    obtain ⟨p, hp, ho⟩ := Graph.upstream_of_hoisted ho
    obtain ⟨houtput, hpixel⟩ := hupstream hp ho
    obtain ⟨done'', hle', hcovered', -⟩ := hdemand _ _ _ _ _ hrun done' running hcovered houtput
      (hfirst.stage_eq hstage ▸ hpixel)
    exact ⟨done'', hle.trans hle', hcovered', fun name hname p hp ↦
      (hpins name hname p hp).mono (Graph.Covered.entered_mono hle' _)⟩
  | read hfirst hread ih =>
    obtain ⟨done', hle, hcovered, hpins⟩ := ih h hrunning hfeeds hupstream
    obtain ⟨p, hp, ⟨c, v, hc, -, hrun⟩ | ⟨hc, rfl, hvalue⟩⟩ := inputValue?_cases hread
    · obtain ⟨houtput, hpixel⟩ := hupstream (List.mem_of_find?_eq_some hp) (.driver hc)
      obtain ⟨done'', hle', hcovered', hentered⟩ := hdemand _ _ _ _ _ hrun done' running hcovered
        houtput (hfirst.stage_eq hstage ▸ hpixel)
      rw [hfirst.stage_eq hstage] at hentered
      refine ⟨done'', hle.trans hle', hcovered', fun name hname q hq ↦ ?_⟩
      rcases List.mem_cons.mp hname with rfl | hname
      · obtain rfl := Option.some.inj (hp.symm.trans hq)
        exact .driven hc (.inl hentered)
      · exact (hpins name hname q hq).mono (Graph.Covered.entered_mono hle' _)
    · refine ⟨done', hle, hcovered, fun name hname q hq ↦ ?_⟩
      rcases List.mem_cons.mp hname with rfl | hname
      · obtain rfl := Option.some.inj (hp.symm.trans hq)
        refine .unconnected hc ?_
        rcases hvalue with ⟨l, hl, -⟩ | ⟨-, hoptional, -⟩
        · exact .inl (by simp [hl])
        · exact .inr hoptional
      · exact hpins name hname q hq

/-- An emitter reads every input of its node, but for a constant index. -/
theorem Node.IsLaidOut.readPins (hlaidOut : n.IsLaidOut) {g : Graph} {p : Pin} (hp : p ∈ n.inputs) :
    p.name ∈ n.readPins g ∨ ∃ c, g.driver? p.id = some c ∧ g.IsConstant c.fromNode := by
  have hinput := hlaidOut.input?_name hp
  have hname : p.name ∈ n.kind.inputPins.map PinSpec.name :=
    hlaidOut.inputs ▸ List.mem_map_of_mem hp
  have hloop {condition : PinSpec} (hcondition : condition.name = "Condition")
      (h : p.name ∈ (NodeKind.loopInputs condition).map PinSpec.name) :
      p.name ∈ "Input" :: Emitter.optionalPins n := by
    simp only [NodeKind.loopInputs, PinSpec.required, PinSpec.optional, List.map_cons, List.map_nil,
      hcondition] at h
    simp only [Emitter.optionalPins, List.mem_cons, List.mem_filter, hinput, Option.isSome_some]
    simp only [List.mem_cons] at h
    tauto
  unfold Node.readPins
  split <;> rename_i hkind
  · -- The index of an array.
    simp only [hkind, NodeKind.inputPins, PinSpec.required, List.map_cons, List.map_nil,
      List.mem_singleton] at hname
    unfold Emitter.indexPins
    split
    · next hconstant =>
      obtain ⟨value, hvalue⟩ := Option.isSome_iff_exists.mp hconstant
      simp only [Emitter.constantIndex?, Option.bind_eq_bind, Option.bind_eq_some_iff] at hvalue
      obtain ⟨q, hq, c, hc, m, hm, hvalue⟩ := hvalue
      rw [← hname, hinput] at hq
      obtain rfl := Option.some.inj hq
      split at hvalue
      · next value hscalar => exact .inr ⟨c, hc, m, value, hm, hscalar⟩
      · cases hvalue
    · exact .inl (by simp [hname])
  · exact .inl (hloop rfl (by simpa [hkind, NodeKind.inputPins] using hname))
  · exact .inl (hloop rfl (by simpa [hkind, NodeKind.inputPins] using hname))
  · exact .inl (by
      simp only [hkind, NodeKind.inputPins, PinSpec.required, List.map_cons, List.map_nil,
        List.mem_singleton] at hname
      exact hname ▸ List.mem_cons_self)
  · exact .inl (hloop rfl (by simpa [hkind, NodeKind.inputPins] using hname))
  · exact .inl hname

theorem NodeRun.covered (hg : env.graph.IsWired) (hstage : demand.KeepsStage env)
    (hdemand : demand.IsCovering env) (hrun : NodeRun env demand n s t)
    (h : env.graph.Covered done running s) (hn : env.graph.node? n.id = some n)
    (hrunning : n.id ∈ running s.stage) (hfeeds : s.stage = .pixel → env.graph.FeedsPixel n.id) :
    ∃ done', done ≤ done' ∧ env.graph.Covered done' running t ∧
      (∀ p ∈ n.inputs, env.graph.Supplied
        (done' (n.kind.inputStage s.stage) ∪ running (n.kind.inputStage s.stage)) p) ∧
      (s.stage = .pixel → n.kind.isInterpolator →
        ∃ p, n.output? "Output" = some p ∧ p.id ∈ t.pixel.outer.map Prod.fst) := by
  have hlaidOut := hg.laidOut.nodes n (OrderedMap.mem_values_of_get? hn)
  cases hrun with
  | within hvertex hmoves hpins =>
    obtain ⟨done', hle, hcovered, hread⟩ := hmoves.covered hg hstage hdemand h hn hrunning
      fun hpixel ↦ ⟨hfeeds hpixel, by
        refine Bool.eq_false_iff.mpr fun hkind ↦ ?_
        rw [hvertex (NodeKind.isInterpolator_iff.mp hkind)] at hpixel
        cases hpixel⟩
    have hinputStage : n.kind.inputStage s.stage = s.stage := by
      unfold NodeKind.inputStage
      split
      · next hkind => exact (hvertex (NodeKind.isInterpolator_iff.mp hkind)).symm
      · rfl
    refine ⟨done', hle, hcovered, fun p hp ↦ ?_, fun hpixel hkind ↦ ?_⟩
    · rw [hinputStage]
      rcases hlaidOut.readPins (g := env.graph) hp with hname | ⟨c, hc, hconstant⟩
      · have hinput := hlaidOut.input?_name hp
        exact hread p.name (hpins p.name hname (by simp [hinput])) p hinput
      · exact .driven hc (.inr hconstant)
    · rw [hvertex (NodeKind.isInterpolator_iff.mp hkind)] at hpixel
      cases hpixel
  | @across t v p hkind hpixel hread _ hp =>
    have hinputs : ∀ q ∈ n.inputs, n.input? "Input" = some q := by
      intro q hq
      have hname : q.name ∈ n.kind.inputPins.map PinSpec.name :=
        hlaidOut.inputs ▸ List.mem_map_of_mem hq
      rw [hkind] at hname
      have hname : q.name = "Input" := List.mem_singleton.mp hname
      rw [← hname]
      exact hlaidOut.input?_name hq
    have hinputStage : n.kind.inputStage s.stage = .vertex := by
      rw [hkind]
      rfl
    have hp' : p ∈ n.outputs := Node.mem_outputs hp
    -- The input is evaluated in the vertex stage, where nothing needs to feed the pixel stage.
    have hvertex : ∃ done', done ≤ done' ∧ env.graph.Covered done' running t ∧
        ∀ q ∈ n.inputs, env.graph.Supplied (done' .vertex ∪ running .vertex) q := by
      have hstart : env.graph.Covered done running { s with stage := .vertex } := h.congr rfl rfl
      obtain ⟨q, hq, ⟨c, w, hc, -, hvalue⟩ | ⟨hc, rfl, hvalue⟩⟩ := inputValue?_cases hread
      · obtain ⟨done', hle, hcovered, hentered⟩ := hdemand _ _ _ _ _ hvalue done running hstart
          (hg.source hc) (by rintro ⟨⟩)
        refine ⟨done', hle, hcovered, fun q' hq' ↦ ?_⟩
        obtain rfl := Option.some.inj (hq.symm.trans (hinputs q' hq'))
        exact .driven hc (.inl hentered)
      · refine ⟨done, le_refl _, hstart, fun q' hq' ↦ ?_⟩
        obtain rfl := Option.some.inj (hq.symm.trans (hinputs q' hq'))
        refine .unconnected hc ?_
        rcases hvalue with ⟨l, hl, -⟩ | ⟨-, hoptional, -⟩
        · exact .inl (by simp [hl])
        · exact .inr hoptional
    obtain ⟨done', hle, hcovered, hsupplied⟩ := hvertex
    refine ⟨done', hle, hcovered.carry env.dialect v hn (hpixel ▸ hrunning) hp', ?_,
      fun _ _ ↦ ⟨p, hp, ?_⟩⟩
    · rw [hinputStage]
      exact hsupplied
    · change p.id ∈ (t.pixel.outer ++ [(p.id, _)]).map Prod.fst
      simp

/-- The node whose emitter runs is evaluated after that. -/
theorem NodeRun.evaluated (hg : env.graph.IsWired) (hstage : demand.KeepsStage env)
    (hdemand : demand.IsCovering env) (hrun : NodeRun env demand n (s.beginNode n.id) t)
    (h : env.graph.Covered done running s) (hn : env.graph.node? n.id = some n)
    (hruns : n.kind.runsIn s.stage) (hfeeds : s.stage = .pixel → env.graph.FeedsPixel n.id) :
    ∃ done', done ≤ done' ∧ env.graph.Covered done' running (t.endNode n.id) ∧
      n.id ∈ done' s.stage := by
  have hstart : env.graph.Covered done _ (s.beginNode n.id) := (h.start hfeeds).congr rfl rfl
  obtain ⟨done', hle, hcovered, hinputs, hcrossed⟩ := hrun.covered hg hstage hdemand hstart hn
    (by simp [EmitState.beginNode]) hfeeds
  refine ⟨_, hle.trans (fun stage ↦ ?_), (hcovered.finish hn hruns hinputs hcrossed).congr rfl rfl,
    by simp⟩
  by_cases heq : stage = s.stage
  · subst heq
    rw [Function.update_self]
    exact Set.subset_insert _ _
  · rw [Function.update_of_ne heq]

theorem evaluate_isCovering (hg : env.graph.IsWired) : Demand.IsCovering env evaluate := by
  refine evaluate_induction (P := fun id pin s _ t ↦ ∀ done running,
    env.graph.Covered done running s → env.graph.HasOutput id pin →
      (s.stage = .pixel → env.graph.FeedsPixel id) → ∃ done', done ≤ done' ∧
        env.graph.Covered done' running t ∧ id ∈ done' s.stage ∪ running s.stage) ?_ ?_
  · rintro id pin s v hv done running h ⟨n, p, hn, hp, hid⟩ -
    have hbound : pin ∈ (s.shader s.stage).boundPins :=
      StageShader.isSome_binding?_iff.mp (by rw [← EmitState.binding?, hv]; rfl)
    obtain ⟨id', hentered, n', p', hn', hp', hid'⟩ := h.bound s.stage pin hbound
    -- The pin belongs to one node only.
    have hsame : n' = n := hg.node_eq (OrderedMap.mem_values_of_get? hn')
      (OrderedMap.mem_values_of_get? hn) (List.mem_append_right _ hp') (List.mem_append_right _ hp)
      (hid'.trans hid.symm)
    subst hsame
    have hnode : id' = id :=
      (hg.consistent.nodes _ _ hn').symm.trans (hg.consistent.nodes _ _ hn)
    subst hnode
    exact ⟨done, le_refl _, h, hentered⟩
  · intro demand hstage hdemand id pin n s v u hn _ hruns hrun _ done running h _ hfeeds
    obtain rfl := hg.consistent.nodes _ _ hn
    obtain ⟨done', hle, hcovered, hdone⟩ := hrun.evaluated hg hstage hdemand h hn hruns hfeeds
    exact ⟨done', hle, hcovered, .inl hdone⟩

end Runs

end ShaderGraph
