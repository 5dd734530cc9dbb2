import ShaderGraph.Proofs.Emission.Moves
import ShaderGraph.Proofs.Termination.Program
import ShaderGraph.Proofs.Trace.Emitters

/-!
# Framed emission

Whatever an evaluation does and however it ends, it returns to the stage, the scopes and the bodies in
which it began, it appends text, and it leaves every binding as it was. An emitter may only change the
types of outputs of its own node, which were not bound before it started.
-/

namespace ShaderGraph

open EmitM

theorem forall₂_append_left {α β : Type} {R : α → β → Prop} {as bs : List α} {cs : List β}
    (h : List.Forall₂ R (as ++ bs) cs) :
    ∃ cs₁ cs₂, cs = cs₁ ++ cs₂ ∧ List.Forall₂ R as cs₁ ∧ List.Forall₂ R bs cs₂ := by
  induction as generalizing cs with
  | nil => exact ⟨[], cs, rfl, .nil, h⟩
  | cons a as ih =>
    obtain ⟨c, cs', hc, hcs, rfl⟩ := List.forall₂_cons_left_iff.mp h
    obtain ⟨cs₁, cs₂, rfl, h₁, h₂⟩ := ih hcs
    exact ⟨c :: cs₁, cs₂, rfl, .cons hc h₁, h₂⟩

/-! ## Bindings -/

/-- The same pin bound to the same variable, up to its type if the pin is one of `own`. -/
def SameBinding (own : List PinId) (b c : Binding) : Prop :=
  c.1 = b.1 ∧ (b.1 ∉ own → c = b)

namespace SameBinding

variable {own : List PinId} {b c d : Binding} {bs cs ds : List Binding} {pin : PinId} {v : Variable}

theorem refl (b : Binding) : SameBinding own b b :=
  ⟨rfl, fun _ ↦ rfl⟩

theorem trans (h : SameBinding own b c) (h' : SameBinding own c d) : SameBinding own b d :=
  ⟨h'.1.trans h.1, fun hb ↦ (h'.2 (h.1.symm ▸ hb)).trans (h.2 hb)⟩

theorem forall₂_refl (bs : List Binding) : List.Forall₂ (SameBinding own) bs bs :=
  List.forall₂_same.mpr fun b _ ↦ refl b

theorem forall₂_trans (h : List.Forall₂ (SameBinding own) bs cs)
    (h' : List.Forall₂ (SameBinding own) cs ds) : List.Forall₂ (SameBinding own) bs ds := by
  induction h generalizing ds with
  | nil => exact h'
  | cons hb _ ih =>
    obtain ⟨d, ds', hd, hds, rfl⟩ := List.forall₂_cons_left_iff.mp h'
    exact .cons (hb.trans hd) (ih hds)

/-- Pins that are not `own` are found bound to the same variables. -/
theorem lookup_eq (h : List.Forall₂ (SameBinding own) bs cs) (hpin : pin ∉ own) :
    cs.lookup pin = bs.lookup pin := by
  induction h with
  | nil => rfl
  | @cons b c bs cs hb _ ih =>
    rw [List.lookup_cons, List.lookup_cons, hb.1]
    by_cases heq : pin = b.1
    · subst heq
      simp [hb.2 hpin]
    · have hne : (pin == b.1) = false := by simpa using heq
      simp only [hne, ih]

theorem forall₂_eq (h : List.Forall₂ (SameBinding own) bs cs) (hout : ∀ b ∈ bs, b.1 ∉ own) :
    cs = bs := by
  induction h with
  | nil => rfl
  | cons hb _ ih =>
    rw [hb.2 (hout _ List.mem_cons_self), ih fun b hb ↦ hout b (List.mem_cons_of_mem _ hb)]

theorem retypeFirst (hpin : pin ∈ own) (type : ValueType) (bs : List Binding) :
    List.Forall₂ (SameBinding own) bs (StageShader.retypeFirst pin type bs) := by
  induction bs with
  | nil => exact .nil
  | cons b bs ih =>
    unfold StageShader.retypeFirst
    split
    · next h => exact .cons ⟨h.symm, fun hb ↦ absurd (h ▸ hpin) hb⟩ (forall₂_refl bs)
    · exact .cons (refl b) ih

end SameBinding

/-! ## Stages -/

namespace StageShader

/-- What an emitter keeps of a stage; `own` are the outputs of its node. -/
structure Keeps (own : List PinId) (a b : StageShader) : Prop extends a.Extends b where
  bindings : ∃ new old, b.bindings = new ++ old ∧ List.Forall₂ (SameBinding own) a.bindings old
  outer : ∃ new, b.outer = a.outer ++ new
  bound : ∀ pin ∉ own, ∀ v, a.binding? pin = some v → b.binding? pin = some v

namespace Keeps

variable {own : List PinId} {a b c : StageShader} {pin : PinId} {v : Variable}

theorem of_written (h : a.Written b) : a.Keeps own b where
  toExtends := h.toExtends
  bindings := ⟨[], a.bindings, h.bindings, SameBinding.forall₂_refl _⟩
  outer := ⟨[], by rw [h.outer, List.append_nil]⟩
  bound pin _ v hv := by rwa [binding?, h.bindings, h.outer]

theorem refl (a : StageShader) : a.Keeps own a :=
  of_written (.refl a)

theorem trans (h : a.Keeps own b) (h' : b.Keeps own c) : a.Keeps own c where
  toExtends := h.toExtends.trans h'.toExtends
  bindings := by
    obtain ⟨new, old, hb, hold⟩ := h.bindings
    obtain ⟨new', old', hc, hold'⟩ := h'.bindings
    rw [hb] at hold'
    obtain ⟨new'', old'', rfl, -, hsame⟩ := forall₂_append_left hold'
    exact ⟨new' ++ new'', old'', by rw [hc, List.append_assoc],
      SameBinding.forall₂_trans hold hsame⟩
  outer := by
    obtain ⟨new, hb⟩ := h.outer
    obtain ⟨new', hc⟩ := h'.outer
    exact ⟨new ++ new', by rw [hc, hb, List.append_assoc]⟩
  bound pin hpin v hv := h'.bound pin hpin v (h.bound pin hpin v hv)

theorem bind (hpin : pin ∈ own) (v : Variable) (a : StageShader) : a.Keeps own (a.bind pin v) where
  toExtends := .of_eq rfl rfl rfl fun block ↦ by cases block <;> rfl
  bindings := ⟨[(pin, v)], a.bindings, rfl, SameBinding.forall₂_refl _⟩
  outer := ⟨[], by rw [List.append_nil]; rfl⟩
  bound other hother w hw := by
    have hne : (other == pin) = false := by
      simpa using fun h : other = pin ↦ hother (h ▸ hpin)
    simpa only [binding?, StageShader.bind, List.lookup_cons, hne] using hw

theorem bindOuter (pin : PinId) (v : Variable) (a : StageShader) :
    a.Keeps own (a.bindOuter pin v) where
  toExtends := .of_eq rfl rfl rfl fun block ↦ by cases block <;> rfl
  bindings := ⟨[], a.bindings, rfl, SameBinding.forall₂_refl _⟩
  outer := ⟨[(pin, v)], rfl⟩
  bound other _ w hw := by
    simp only [binding?, StageShader.bindOuter, List.lookup_append] at hw ⊢
    rw [← Option.or_assoc, hw]
    rfl

theorem retype (hpin : pin ∈ own) (type : ValueType) (a : StageShader) :
    a.Keeps own (a.retype pin type) where
  toExtends := .of_eq rfl rfl rfl fun block ↦ by cases block <;> rfl
  bindings := ⟨[], _, rfl, SameBinding.retypeFirst hpin type _⟩
  outer := ⟨[], by rw [List.append_nil]; rfl⟩
  bound other hother w hw := by
    rwa [binding?, StageShader.retype,
      SameBinding.lookup_eq (SameBinding.retypeFirst hpin type _) hother]

/-- A stage that is kept may be extended by outputs that were not bound. -/
theorem of_unbound (h : a.Keeps own b) (hunbound : ∀ pin ∈ own, a.binding? pin = none) :
    a.Keeps [] b where
  toExtends := h.toExtends
  bindings := by
    obtain ⟨new, old, hb, hold⟩ := h.bindings
    have hout : ∀ b ∈ a.bindings, b.1 ∉ own := by
      intro b hmem hown
      have hsome : (a.binding? b.1).isSome :=
        isSome_binding?_iff.mpr (List.mem_append_left _ (List.mem_map_of_mem hmem))
      simp [hunbound b.1 hown] at hsome
    exact ⟨new, a.bindings, by rw [hb, SameBinding.forall₂_eq hold hout],
      SameBinding.forall₂_refl _⟩
  outer := h.outer
  bound pin _ v hv := h.bound pin (fun hown ↦ by simp [hunbound pin hown] at hv) v hv

theorem weaken (h : a.Keeps [] b) : a.Keeps own b where
  toExtends := h.toExtends
  bindings := by
    obtain ⟨new, old, hb, hold⟩ := h.bindings
    exact ⟨new, old, hb, hold.imp fun b c hbc ↦ ⟨hbc.1, fun _ ↦ hbc.2 List.not_mem_nil⟩⟩
  outer := h.outer
  bound pin _ := h.bound pin List.not_mem_nil

/-- What is done in a capture with a scope of its own. -/
theorem capture (h : a.beginCapture.openScope.Keeps own b) :
    a.Keeps own b.closeScope.endCapture.2 := by
  obtain ⟨new, old, hb, hold⟩ := h.bindings
  obtain ⟨added, houter⟩ := h.outer
  -- The scope is cut back to its mark, which is where the old bindings begin.
  have hclose : b.closeScope = { b with scopes := a.scopes, bindings := old } := by
    have hscopes : b.scopes = a.bindings.length :: a.scopes := h.scopes
    have hlength : a.bindings.length = old.length := hold.length_eq
    simp only [closeScope, hscopes, hb]
    rw [List.length_append, hlength, Nat.add_sub_cancel, List.drop_left]
  obtain ⟨top, top', below, hbefore, hafter, -⟩ := h.body
  obtain rfl : below = a.buffers := (List.cons.inj hbefore).2.symm
  rw [hclose]
  have hbody : ({ b with scopes := a.scopes, bindings := old } : StageShader).endCapture.2 =
      { b with scopes := a.scopes, bindings := old, captures := a.captures, main := a.main } := by
    unfold buffers at hafter
    cases hcaptures : b.captures with
    | nil => simp [hcaptures] at hafter
    | cons first rest =>
      rw [hcaptures, List.cons_append] at hafter
      obtain ⟨hrest, hmain⟩ := List.append_inj' (List.cons.inj hafter).2 rfl
      simp only [endCapture, hrest, ← List.singleton_inj.mp hmain]
  rw [hbody]
  refine ⟨⟨rfl, ?_, h.blocks⟩, ⟨[], old, rfl, hold⟩, ⟨added, houter⟩, fun pin hpin v hv ↦ ?_⟩
  · obtain ⟨b, bs, hbs⟩ := List.exists_cons_of_ne_nil a.buffers_ne_nil
    exact ⟨b, b, bs, hbs, hbs, .refl b⟩
  · change (a.bindings.lookup pin).or (a.outer.lookup pin) = some v at hv
    change (old.lookup pin).or (b.outer.lookup pin) = some v
    rw [SameBinding.lookup_eq hold hpin, houter]
    change (a.bindings.lookup pin).or ((a.outer ++ added).lookup pin) = some v
    rw [List.lookup_append, ← Option.or_assoc, hv]
    rfl

end Keeps

end StageShader

/-! ## Emissions -/

/-- The outputs of the node whose emitter acts. -/
def ownPins : Option Node → List PinId
  | none => []
  | some n => n.outputs.map Pin.id

namespace EmitState

/-- A node that was not running is not running after its emitter. -/
theorem inProgress_endNode {s u : EmitState} {id : NodeId} (hidle : id ∉ s.inProgress)
    (h : u.inProgress = (s.beginNode id).inProgress) :
    (u.endNode id).inProgress = s.inProgress := by
  simp only [endNode, h, beginNode]
  rw [List.filter_cons_of_neg (by simp)]
  exact List.filter_eq_self.mpr fun other hother ↦ by
    simpa using fun heq : other = id ↦ hidle (heq ▸ hother)

/-- What an emitter keeps of the stages; `own` are the outputs of its node, which it binds in the current
stage. -/
structure Retains (own : List PinId) (s t : EmitState) : Prop where
  stage : t.stage = s.stage
  shader : ∀ stage, (s.shader stage).Keeps (if stage = s.stage then own else []) (t.shader stage)

namespace Retains

variable {own : List PinId} {s t u : EmitState}

theorem of_written (h : s.Written t) : s.Retains own t :=
  ⟨h.stage, fun stage ↦ .of_written (h.shader stage)⟩

theorem trans (h : s.Retains own t) (h' : t.Retains own u) : s.Retains own u where
  stage := h'.stage.trans h.stage
  shader stage := (h.shader stage).trans (h.stage ▸ h'.shader stage)

theorem weaken (h : s.Retains [] t) : s.Retains own t where
  stage := h.stage
  shader stage := (ite_self (c := stage = s.stage) ([] : List PinId) ▸ h.shader stage).weaken

/-- A change of the current stage. -/
theorem modifyShader {f : StageShader → StageShader}
    (hf : (s.shader s.stage).Keeps own (f (s.shader s.stage))) :
    s.Retains own (s.modifyShader s.stage f) where
  stage := stage_modifyShader ..
  shader other := by
    by_cases h : other = s.stage
    · subst h
      rw [shader_modifyShader, if_pos rfl]
      exact hf
    · rw [shader_modifyShader_of_ne _ _ h]
      exact .refl _

/-- What is done between the opening of a capture and its end. -/
theorem capture (h : s.beginCapture.Retains own u) : s.Retains own (u.endCapture s.stage) where
  stage := stage_modifyShader ..
  shader other := by
    have hshader := h.shader other
    rw [EmitState.beginCapture, stage_modifyShader] at hshader
    by_cases hother : other = s.stage
    · subst hother
      rw [shader_modifyShader, if_pos rfl] at hshader
      rw [EmitState.endCapture, shader_modifyShader, if_pos rfl]
      exact hshader.capture
    · rw [shader_modifyShader_of_ne _ _ hother] at hshader
      rw [EmitState.endCapture, shader_modifyShader_of_ne _ _ hother]
      cases other <;> exact hshader

/-- What is done in the vertex stage for an emitter of the pixel stage. -/
theorem cross (hstage : s.stage = .pixel) (h : { s with stage := .vertex }.Retains [] u) :
    s.Retains own { u with stage := .pixel } := by
  refine weaken ⟨hstage.symm, fun stage ↦ ?_⟩
  have hshader := h.shader stage
  rw [ite_self] at hshader ⊢
  cases stage <;> exact hshader

/-- The run of an emitter of whose node no output was bound. -/
theorem node {n : Node} (hunbound : ∀ p ∈ n.outputs, s.binding? p.id = none)
    (h : (s.beginNode n.id).Retains (n.outputs.map Pin.id) u) : s.Retains own (u.endNode n.id) := by
  refine weaken ⟨h.stage, fun stage ↦ ?_⟩
  rw [ite_self]
  have hshader : (s.shader stage).Keeps _ (u.shader stage) := h.shader stage
  by_cases hstage : stage = s.stage
  · subst hstage
    rw [EmitState.beginNode, if_pos rfl] at hshader
    refine hshader.of_unbound fun pin hpin ↦ ?_
    obtain ⟨p, hp, rfl⟩ := List.mem_map.mp hpin
    exact hunbound p hp
  · rw [EmitState.beginNode, if_neg hstage] at hshader
    exact hshader

end Retains

/-- What an emitter keeps of the state. -/
structure Keeps (own : List PinId) (s t : EmitState) : Prop extends s.Retains own t where
  inProgress : t.inProgress = s.inProgress

namespace Keeps

variable {own : List PinId} {s t u : EmitState}

theorem of_written (h : s.Written t) : s.Keeps own t :=
  ⟨.of_written h, h.inProgress⟩

theorem trans (h : s.Keeps own t) (h' : t.Keeps own u) : s.Keeps own u :=
  ⟨h.toRetains.trans h'.toRetains, h'.inProgress.trans h.inProgress⟩

/-- The run of an emitter whose node was not running and whose outputs were not bound. -/
theorem node {n : Node} (hidle : n.id ∉ s.inProgress)
    (hunbound : ∀ p ∈ n.outputs, s.binding? p.id = none)
    (h : (s.beginNode n.id).Keeps (n.outputs.map Pin.id) u) : s.Keeps own (u.endNode n.id) :=
  ⟨.node hunbound h.toRetains, inProgress_endNode hidle h.inProgress⟩

end Keeps

end EmitState

namespace EmitState.Starts

variable {g : Graph} {s : EmitState} {id : NodeId} {pin : PinId} {n : Node}

/-- An emitter starts when no output of its node is bound. -/
theorem outputs_unbound (h : s.Starts g id pin n) : ∀ p ∈ n.outputs, s.binding? p.id = none := by
  intro p hp
  by_cases hpin : p.id = pin
  · rw [hpin]
    exact h.unbound
  · have hsibling := List.any_eq_false.mp h.alone p hp
    simpa [hpin] using hsibling

end EmitState.Starts

section Traces

variable {env : EmitEnv} {depth : Nat} {own? : Option Node} {names : List String} {α : Type}
  {x : Demand → EmitM α} {s t : EmitState} {τ : List Moment} {r : Except CompileError α}

/-- An emitter keeps the stages, however it ends. -/
theorem Traced.retains (h : Traced env depth own? names x s τ r t) : s.Retains (ownPins own?) t := by
  induction h with
  | quiet _ hwritten => exact .of_written hwritten
  | bind _ _ ih ih' => exact ih.trans ih'
  | fail _ ih => exact ih
  | output hp =>
    exact .modifyShader (.bind (List.mem_map_of_mem (Node.mem_outputs hp)) _ _)
  | retype hp =>
    exact .modifyShader (.retype (List.mem_map_of_mem (Node.mem_outputs hp)) _ _)
  | outer hp hstage ht =>
    rw [ht, ← hstage]
    exact .modifyShader (.bindOuter _ _ _)
  | capture _ _ ih => exact .capture ih
  | cross hstage _ ih => exact .cross hstage ih
  | find => exact .of_written (.refl _)
  | start _ hstarts _ _ _ ih => exact .node hstarts.outputs_unbound ih

/-- After an action the same emitters are running as before. -/
theorem Traced.inProgress (hkeyed : env.graph.IsKeyed) (h : Traced env depth own? names x s τ r t) :
    t.inProgress = s.inProgress := by
  induction h with
  | quiet _ hwritten => exact hwritten.inProgress
  | bind _ _ ih ih' => exact ih'.trans ih
  | fail _ ih => exact ih
  | output => exact EmitState.inProgress_modifyShader ..
  | retype => exact EmitState.inProgress_modifyShader ..
  | outer _ _ ht =>
    rw [ht]
    exact EmitState.inProgress_modifyShader ..
  | capture _ _ ih =>
    rw [EmitState.endCapture, EmitState.inProgress_modifyShader]
    exact ih.trans (EmitState.inProgress_modifyShader ..)
  | cross _ _ ih => exact ih
  | find => rfl
  | start _ hstarts _ _ _ ih =>
    refine EmitState.inProgress_endNode ?_ ih
    rw [hkeyed.id_eq hstarts.node]
    exact hstarts.idle

/-- An emitter keeps the state, however it ends. -/
theorem Traced.keeps (hkeyed : env.graph.IsKeyed) (h : Traced env depth own? names x s τ r t) :
    s.Keeps (ownPins own?) t :=
  ⟨h.retains, h.inProgress hkeyed⟩

end Traces

/-! ## Evaluations -/

/-- A stage after an evaluation: the bodies below the active one and the scopes are the same, the
active body and the blocks have text appended, and every pin that was bound is bound to the same
variable. -/
structure StageShader.Framed (a b : StageShader) : Prop extends a.Extends b where
  bound : ∀ pin v, a.binding? pin = some v → b.binding? pin = some v

/-- A state after an evaluation. -/
structure EmitState.Framed (s t : EmitState) : Prop where
  stage : t.stage = s.stage
  inProgress : t.inProgress = s.inProgress
  shader : ∀ stage, (s.shader stage).Framed (t.shader stage)

namespace EmitState.Keeps

variable {s t u : EmitState}

theorem framed (h : s.Keeps [] t) : s.Framed t where
  stage := h.stage
  inProgress := h.inProgress
  shader stage := by
    have hshader := h.shader stage
    rw [ite_self] at hshader
    exact ⟨hshader.toExtends, fun pin v ↦ hshader.bound pin List.not_mem_nil v⟩

end EmitState.Keeps

section Evaluation

variable {env : EmitEnv} {demand : Demand} {depth : Nat} {s t : EmitState}

/-- Demands that evaluate outputs to some depth, among them those of a compilation. -/
def Demand.Evaluates (env : EmitEnv) (demand : Demand) : Prop :=
  ∃ depth, ∀ id pin, (demand id pin).run env = (evaluateWithin depth id pin).run env

theorem evaluates_evaluateWithin (depth : Nat) : (evaluateWithin depth).Evaluates env :=
  ⟨depth, fun _ _ ↦ rfl⟩

theorem evaluates_evaluate : evaluate.Evaluates env :=
  ⟨emissionDepth env.graph, run_evaluate env⟩

/-- Any output may be demanded, also one that no connection leaves. -/
theorem keeps_evaluateWithin (hkeyed : env.graph.IsKeyed) {id : NodeId} {pin : PinId}
    {r : Except CompileError Variable} (h : Ends env (evaluateWithin depth id pin) s r t) :
    s.Keeps [] t := by
  by_cases hstarts : depth ≠ 0 ∧ ∃ n, s.Starts env.graph id pin n
  · obtain ⟨hdepth, n, hstarts⟩ := hstarts
    obtain ⟨depth, rfl⟩ := Nat.exists_eq_succ_of_ne_zero hdepth
    obtain ⟨names, -, hemit⟩ := traceable_emitKind (demandable env depth) n
    obtain ⟨_, _, _, u, -, htraced⟩ := hemit (s.beginNode n.id)
    obtain ⟨r', hends⟩ := ends_evaluateWithin_succ hstarts (htraced.ends fun _ _ ↦ rfl)
    cases hends.symm.trans h
    refine .node ?_ hstarts.outputs_unbound (htraced.keeps hkeyed)
    rw [hkeyed.id_eq hstarts.node]
    exact hstarts.idle
  · have hends : ∃ r', Ends env (evaluateWithin depth id pin) s r' s :=
      ends_evaluateWithin (by tauto)
    obtain ⟨r', hends⟩ := hends
    cases hends.symm.trans h
    exact .of_written (.refl s)

theorem Demand.Evaluates.keeps (hkeyed : env.graph.IsKeyed) (hdemand : demand.Evaluates env)
    {id : NodeId} {pin : PinId} {r : Except CompileError Variable}
    (h : Ends env (demand id pin) s r t) : s.Keeps [] t := by
  obtain ⟨depth, hdemand⟩ := hdemand
  rw [Ends, hdemand] at h
  exact keeps_evaluateWithin hkeyed h

/-- What has a trace without a node of its own keeps every binding. -/
theorem Demand.Evaluates.keeps_of_traceable (hkeyed : env.graph.IsKeyed)
    (hdemand : demand.Evaluates env) {α : Type} {names : List String} {x : Demand → EmitM α}
    (hx : ∀ depth, Demandable env depth → Traceable env depth none names x)
    {r : Except CompileError α} (h : Ends env (x demand) s r t) : s.Keeps [] t := by
  obtain ⟨depth, hdemand⟩ := hdemand
  obtain ⟨_, _, r', t', -, htraced⟩ := hx depth (demandable env depth) s
  cases (htraced.ends hdemand).symm.trans h
  exact htraced.keeps hkeyed

theorem Demand.Evaluates.keeps_hoist (hkeyed : env.graph.IsKeyed) (hdemand : demand.Evaluates env)
    {outputs : List OutputRef} {r : Except CompileError Unit}
    (h : Ends env (hoist demand outputs) s r t) : s.Keeps [] t := by
  induction outputs generalizing s with
  | nil =>
    cases h
    exact .of_written (.refl _)
  | cons o os ih =>
    change Ends env ((demand o.node o.pin >>= fun _ ↦ pure ()) >>= fun _ ↦ hoist demand os) s r t at h
    rw [bind_assoc] at h
    obtain ⟨v, u, hfirst, hrest⟩ | ⟨e, hfail, -⟩ := ends_bind_cases h
    · exact (hdemand.keeps hkeyed hfirst).trans (ih hrest)
    · exact hdemand.keeps hkeyed hfail

/-- Emission is framed. Evaluating an output or an input, and hoisting outputs, returns to the stage,
the nodes in progress, the scopes and the bodies of before, whether it fails or not; text is appended
to the active bodies and the blocks only, and what was bound stays bound to the same variable. -/
theorem emission_framed (settings : Settings) {g : Graph} (hkeyed : g.IsKeyed) {demand : Demand}
    (hdemand : demand = evaluate ∨ ∃ depth, demand = evaluateWithin depth) (s t : EmitState) :
    (∀ id pin r, Ends ⟨g, settings⟩ (demand id pin) s r t → s.Framed t) ∧
      (∀ n pin r, Ends ⟨g, settings⟩ (inputValue? demand n pin) s r t → s.Framed t) ∧
      (∀ n pin r, Ends ⟨g, settings⟩ (requireInput demand n pin) s r t → s.Framed t) ∧
      (∀ outputs r, Ends ⟨g, settings⟩ (hoist demand outputs) s r t → s.Framed t) := by
  have hevaluates : demand.Evaluates ⟨g, settings⟩ := by
    obtain rfl | ⟨depth, rfl⟩ := hdemand
    · exact evaluates_evaluate
    · exact evaluates_evaluateWithin depth
  refine ⟨fun id pin r h ↦ (hevaluates.keeps hkeyed h).framed, fun n pin r h ↦ ?_,
    fun n pin r h ↦ ?_, fun outputs r h ↦ (hevaluates.keeps_hoist hkeyed h).framed⟩
  · exact (hevaluates.keeps_of_traceable hkeyed
      (fun depth hdepth ↦ Traceable.inputValue? hdepth n pin) h).framed
  · exact (hevaluates.keeps_of_traceable hkeyed
      (fun depth hdepth ↦ Traceable.requireInput hdepth n pin) h).framed

/-- A branch whose first arm is read in the vertex stage and whose second arm cannot be computed. -/
def failingBranch : Graph :=
  .numbered
    [.pixelOutput {}, .conditional .less .auto, .uniform "threshold" .scalar, .interpolator,
      .vertexInput "uv" .custom .vec4 0, .transpose]
    [⟨1, "Output", 0, "Input"⟩, ⟨2, "Output", 1, "Input"⟩, ⟨2, "Output", 1, "Reference"⟩,
      ⟨3, "Output", 1, "CaseTrue"⟩, ⟨5, "Output", 1, "CaseFalse"⟩, ⟨4, "Output", 3, "Input"⟩,
      ⟨2, "Output", 5, "Input"⟩]

/-- The evaluation fails inside of a capture, after both stages were written. -/
theorem emission_framed_failingBranch :
    failingBranch.IsKeyed ∧ ∃ e t,
      Ends ⟨failingBranch, {}⟩ (evaluate (Graph.nodeNumber 1) (Graph.pinNumber 1 .output 0)) {}
        (.error e) t ∧
      t.vertex.bindings.length = 1 ∧ t.pixel.outer.length = 1 ∧ ({} : EmitState).Framed t := by
  have hkeyed : failingBranch.IsKeyed := by decide +kernel
  have hfails : (((evaluate (Graph.nodeNumber 1) (Graph.pinNumber 1 .output 0)).run
      ⟨failingBranch, {}⟩).run.run {}).1.isOk = false := by decide +kernel
  have hbound : (((evaluate (Graph.nodeNumber 1) (Graph.pinNumber 1 .output 0)).run
      ⟨failingBranch, {}⟩).run.run {}).2.vertex.bindings.length = 1 ∧
      (((evaluate (Graph.nodeNumber 1) (Graph.pinNumber 1 .output 0)).run
        ⟨failingBranch, {}⟩).run.run {}).2.pixel.outer.length = 1 := by decide +kernel
  cases hrun : ((evaluate (Graph.nodeNumber 1) (Graph.pinNumber 1 .output 0)).run
      ⟨failingBranch, {}⟩).run.run {} with
  | mk r t =>
    rw [hrun] at hfails hbound
    cases r with
    | ok v => cases hfails
    | error e =>
      exact ⟨hkeyed, e, t, hrun, hbound.1, hbound.2,
        (emission_framed {} hkeyed (.inl rfl) {} t).1 _ _ _ hrun⟩

end Evaluation

end ShaderGraph
