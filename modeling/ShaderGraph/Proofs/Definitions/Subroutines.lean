import ShaderGraph.Proofs.Definitions.Stages
import ShaderGraph.Proofs.Lockstep.Program
import ShaderGraph.Proofs.Placement.Restriction

/-!
# Subroutines of compiled programs

The first script of a name that is reached in a stage defines the subroutine of that name. Scripts that
are reached later call it if they agree with it in the name and in the pins, and fail otherwise. Their
bodies are not compared: a script runs the body of the first one.

Which scripts are reached is told by an emission that refuses to start the emitters of some.
-/

namespace ShaderGraph

open EmitM Emitter

/-! ## Signatures -/

namespace EmitState.Remembers

variable {s t : EmitState}

theorem of_definitions (h : t.definitions = s.definitions) : s.Remembers t :=
  fun stage ↦ .of_eq (congrArg Prod.fst (congrFun (congrArg Prod.snd h) stage))

end EmitState.Remembers

section Remembering

variable {env : EmitEnv} {demand : Demand} {n : Node} {own? : Option Node} {names : List String}
  {α : Type} {x : Demand → EmitM α} {s t : EmitState} {a : α}

/-- What is demanded keeps the signatures of subroutines. -/
def Demand.Remembers (env : EmitEnv) (demand : Demand) : Prop :=
  ∀ id pin s v t, Returns env (demand id pin) s v t → s.Remembers t

theorem Composed.remembers (hdemand : demand.Remembers env) (h : Composed env n own? names x)
    (hx : Returns env (x demand) s a t) : s.Remembers t := by
  induction h generalizing s t with
  | silent h => exact (h s _ t hx).remembers
  | read _ ih =>
    obtain ⟨_, _, hread, hx⟩ := returns_bind.mp hx
    obtain ⟨rfl, rfl⟩ := returns_read.mp hread
    exact ih hx
  | bind _ _ ih ih' =>
    obtain ⟨b, u, hx, hf⟩ := returns_bind.mp hx
    exact (ih hx).trans (ih' b hf)
  | demand => exact hdemand _ _ _ _ _ hx
  | output =>
    obtain ⟨p, -, -, rfl⟩ := returns_bindOutput.mp hx
    exact .of_definitions (s.definitions_bindPin p.id _)
  | retype =>
    obtain ⟨p, -, rfl⟩ := returns_retypeOutput.mp hx
    exact .of_definitions (s.definitions_retype p.id _)
  | capture _ _ _ ih =>
    obtain ⟨b, text⟩ := a
    obtain ⟨u, hbody, -, rfl⟩ := returns_capture.mp hx
    exact ((EmitState.Remembers.of_definitions s.definitions_beginCapture).trans (ih hbody)).trans
      (.of_definitions (u.definitions_endCapture s.stage))
  | weaken _ _ ih => exact ih hx

/-- The emitter of a node keeps the signatures of subroutines. -/
theorem remembers_emitKind (hdemand : demand.Remembers env)
    (h : Returns env (emitKind demand n) s () t) : s.Remembers t := by
  cases hinterpolator : n.kind.isInterpolator with
  | false =>
    obtain ⟨_, -, hcomposed⟩ := composed_emitKind env hinterpolator
    exact hcomposed.remembers hdemand h
  | true =>
    simp only [emitKind, NodeKind.isInterpolator_iff.mp hinterpolator] at h
    have hcomposed : Composed env n none [] fun demand ↦ requireInput demand n "Input" :=
      .requireInput "Input"
    have hinput {s t : EmitState} {v : Variable}
        (h : Returns env (requireInput demand n "Input") s v t) : s.Remembers t :=
      hcomposed.remembers hdemand h
    cases hstage : s.stage with
    | vertex =>
      simp only [interpolator, returns_bind, returns_currentStage, hstage] at h
      obtain ⟨_, _, ⟨rfl, rfl⟩, h⟩ := h
      obtain ⟨v, u, hv, h⟩ := returns_bind.mp h
      exact (hinput hv).trans ((Composed.forwardOutput v).remembers hdemand h)
    | pixel =>
      obtain ⟨v, u, p, hv, -, -, rfl⟩ := interpolator_carries hstage h
      exact .trans (t := { s with stage := .vertex }) (.of_shaders rfl rfl)
        ((hinput hv).trans (.of_definitions (u.definitions_carry p.id v)))

theorem remembers_runNode (hdemand : demand.Remembers env)
    (h : Returns env (runNode demand n) s () t) : s.Remembers t := by
  obtain ⟨u, hrun, rfl⟩ := returns_runNode.mp h
  exact .trans (t := s.beginNode n.id) (.of_shaders rfl rfl)
    ((remembers_emitKind hdemand hrun).trans (.of_shaders rfl rfl))

/-- Evaluations keep the signatures of subroutines. -/
theorem remembers_evaluateWithin (env : EmitEnv) (depth : Nat) :
    Demand.Remembers env (evaluateWithin depth) := by
  refine evaluateWithin_emitKind_induction (P := fun _ _ s _ t ↦ s.Remembers t) ?_ ?_ depth
  · exact fun _ _ s _ _ ↦ .refl s
  · exact fun demand hdemand _ _ n s v u _ _ _ _ hrun _ ↦
      remembers_runNode hdemand (returns_runNode.mpr ⟨u, hrun, rfl⟩)

end Remembering

/-! ## Scripts that are spared -/

theorem Node.kind_of_subroutine? {d : Dialect} {n : Node} {r : Subroutine}
    (h : n.subroutine? d = some r) :
    ∃ inputs outputs, n.kind = .script r.name r.body inputs outputs ∧
      r.signature = d.signature r.name inputs outputs := by
  unfold Node.subroutine? at h
  split at h
  · next hkind =>
    cases h
    exact ⟨_, _, hkind, rfl⟩
  · cases h

/-- The stage has a subroutine of the name and the signature. -/
def EmitState.Defines (s : EmitState) (home : ShaderStage) (r : Subroutine) : Prop :=
  (s.shader home).signature? r.name = some r.signature

theorem EmitState.Defines.of_remembers {s t : EmitState} {home : ShaderStage} {r : Subroutine}
    (hs : s.Defines home r) (h : s.Remembers t) : t.Defines home r :=
  h home r.name r.signature hs

namespace EmitM

/-- Two actions run the same from a state, or the second one leads to a state that defines the
subroutine. -/
def SameRunUnlessDefined {α : Type} (env : EmitEnv) (home : ShaderStage) (r : Subroutine) (s : EmitState)
    (x y : EmitM α) : Prop :=
  ∀ a t, Returns env y s a t → SameRun env s x y ∨ t.Defines home r

namespace SameRunUnlessDefined

variable {env : EmitEnv} {home : ShaderStage} {r : Subroutine} {s : EmitState} {α β : Type}
  {x y : EmitM α}

theorem of_sameRun (h : SameRun env s x y) : SameRunUnlessDefined env home r s x y :=
  fun _ _ _ ↦ .inl h

theorem bind {f g : α → EmitM β} (h : SameRunUnlessDefined env home r s x y)
    (hfg : ∀ a t, Returns env y s a t → SameRunUnlessDefined env home r t (f a) (g a))
    (hremembers : ∀ a t b u, Returns env y s a t → Returns env (g a) t b u → t.Remembers u) :
    SameRunUnlessDefined env home r s (x >>= f) (y >>= g) := by
  intro b u hbind
  obtain ⟨a, t, hy, hg⟩ := returns_bind.mp hbind
  rcases h a t hy with hxy | ht
  · refine (hfg a t hy b u hg).imp_left fun hfg ↦ hxy.bind fun a' t' hy' ↦ ?_
    cases hy.symm.trans hy'
    exact hfg
  · exact .inr (ht.of_remembers (hremembers a t b u hy hg))

/-- After an action that runs the same in any case. -/
theorem after {x : EmitM α} {f g : α → EmitM β} {a : α} {t : EmitState} (hx : Returns env x s a t)
    (h : SameRunUnlessDefined env home r t (f a) (g a)) :
    SameRunUnlessDefined env home r s (x >>= f) (x >>= g) := by
  intro b u hbind
  obtain ⟨a', t', hx', hg⟩ := returns_bind.mp hbind
  cases hx.symm.trans hx'
  refine (h b u hg).imp_left fun hsame ↦ ?_
  rw [SameRun, run_bind_of_returns hx, run_bind_of_returns hx]
  exact hsame

theorem capture (h : SameRunUnlessDefined env home r s.beginCapture x y) :
    SameRunUnlessDefined env home r s (capture x) (capture y) := by
  rintro ⟨a, text⟩ t hcapture
  obtain ⟨u, hy, -, rfl⟩ := returns_capture.mp hcapture
  exact (h a u hy).imp SameRun.capture fun hu ↦
    hu.of_remembers (.of_definitions (u.definitions_endCapture s.stage))

end SameRunUnlessDefined

end EmitM

/-- A subroutine is not the one that a node calls, or the emission is not in the stage `home`. -/
def Spares (d : Dialect) (home : ShaderStage) (r : Subroutine) (stage : ShaderStage) (n : Node) : Prop :=
  ¬ (stage = home ∧ n.subroutine? d = some r)

instance (d : Dialect) (home : ShaderStage) (r : Subroutine) (stage : ShaderStage) :
    DecidablePred (Spares d home r stage) :=
  fun _ ↦ inferInstanceAs (Decidable (¬ _))

section Sparing

variable {env : EmitEnv} {demand demand' : Demand} {n : Node} {own? : Option Node} {names : List String}
  {α : Type} {x : Demand → EmitM α} {s t : EmitState} {home : ShaderStage} {r : Subroutine}

theorem Composed.sameRunUnlessDefined (hremembers : demand.Remembers env)
    (hdemand : ∀ id pin s, SameRunUnlessDefined env home r s (demand' id pin) (demand id pin))
    (h : Composed env n own? names x) (s : EmitState) :
    SameRunUnlessDefined env home r s (x demand') (x demand) := by
  induction h generalizing s with
  | silent | output | retype => exact .of_sameRun rfl
  | read h ih =>
    refine .bind (.of_sameRun rfl) (fun e t hread ↦ ?_) fun e t b u hread hx ↦ ?_
    · obtain ⟨rfl, -⟩ := returns_read.mp hread
      exact ih t
    · obtain ⟨rfl, -⟩ := returns_read.mp hread
      exact h.remembers hremembers hx
  | bind _ hf ih ih' =>
    exact (ih s).bind (fun a t _ ↦ ih' a t) fun a _ _ _ _ hx ↦ (hf a).remembers hremembers hx
  | demand => exact hdemand _ _ s
  | capture _ _ _ ih => exact (ih s.beginCapture).capture
  | weaken _ _ ih => exact ih s

/-- The emitter of a node runs the same under demands that run the same, unless the subroutine is
defined in the end. -/
theorem sameRunUnlessDefined_emitKind (hremembers : demand.Remembers env)
    (hdemand : ∀ id pin s, SameRunUnlessDefined env home r s (demand' id pin) (demand id pin))
    (s : EmitState) :
    SameRunUnlessDefined env home r s (emitKind demand' n) (emitKind demand n) := by
  cases hinterpolator : n.kind.isInterpolator with
  | false =>
    obtain ⟨_, -, hcomposed⟩ := composed_emitKind env hinterpolator
    exact hcomposed.sameRunUnlessDefined hremembers hdemand s
  | true =>
    simp only [emitKind, NodeKind.isInterpolator_iff.mp hinterpolator]
    have hcomposed : Composed env n none [] fun demand ↦ requireInput demand n "Input" :=
      .requireInput "Input"
    have hinput (s : EmitState) : SameRunUnlessDefined env home r s
        (requireInput demand' n "Input") (requireInput demand n "Input") :=
      hcomposed.sameRunUnlessDefined hremembers hdemand s
    cases hstage : s.stage with
    | vertex =>
      intro _ t h
      have hrun (demand : Demand) : SameRun env s (interpolator demand n)
          (requireInput demand n "Input" >>= forwardOutput n) := by
        rw [SameRun, interpolator, run_bind_of_returns (returns_currentStage.mpr ⟨rfl, rfl⟩),
          if_pos hstage]
      have hbind := (hinput s).bind (f := forwardOutput n) (fun _ _ _ ↦ .of_sameRun rfl)
        fun v _ _ _ _ h ↦ (Composed.forwardOutput v).remembers hremembers h
      exact (hbind () t ((hrun demand).symm.trans h)).imp_left fun hsame ↦
        (hrun demand').trans (hsame.trans (hrun demand).symm)
    | pixel =>
      intro _ t h
      obtain ⟨v, u, p, hv, -, -, rfl⟩ := interpolator_carries hstage h
      refine (hinput _ v u hv).imp (fun hsame ↦ ?_) fun hu ↦
        hu.of_remembers (.of_definitions (u.definitions_carry p.id v))
      have hvalue : SameRun env s (vertexValue demand' n "Input") (vertexValue demand n "Input") := by
        rw [SameRun, Lock.run_vertexValue, Lock.run_vertexValue, hsame]
      rw [SameRun, interpolator, run_bind_of_returns (returns_currentStage.mpr ⟨rfl, rfl⟩),
        interpolator, run_bind_of_returns (returns_currentStage.mpr ⟨rfl, rfl⟩), hstage]
      exact hvalue.bind fun _ _ _ ↦ rfl

/-- A script that has run has its subroutine defined. -/
theorem defines_emitKind (hremembers : demand.Remembers env) (hn : n.subroutine? env.dialect = some r)
    (h : Returns env (emitKind demand n) s () t) : t.Defines s.stage r := by
  obtain ⟨inputs, outputs, hkind, hsignature⟩ := Node.kind_of_subroutine? hn
  simp only [emitKind, hkind] at h
  obtain ⟨signature, s₁, htext, hrest⟩ := returns_bind.mp h
  obtain ⟨rfl, rfl, -⟩ := returns_scriptSignature htext
  obtain ⟨_, s₂, hdefine, hcall⟩ := returns_bind.mp hrest
  have hdefined : s₂.Defines s₁.stage r := by
    rw [EmitState.Defines, hsignature]
    obtain ⟨hknown, rfl⟩ | ⟨-, rfl⟩ := returns_defineScript.mp hdefine
    · exact hknown
    · rw [EmitState.addScript, EmitState.shader_modifyShader]
      exact List.lookup_cons_self
  exact hdefined.of_remembers ((Composed.scriptCall r.name inputs outputs).remembers hremembers hcall)

theorem sameRunUnlessDefined_runNode (hremembers : demand.Remembers env)
    (hdemand : ∀ id pin s, SameRunUnlessDefined env home r s (demand' id pin) (demand id pin))
    (s : EmitState) : SameRunUnlessDefined env home r s (runNode demand' n) (runNode demand n) := by
  intro _ t h
  obtain ⟨u, hrun, rfl⟩ := returns_runNode.mp h
  exact (sameRunUnlessDefined_emitKind hremembers hdemand _ () u hrun).imp sameRun_runNode
    fun hu ↦ hu.of_remembers (.of_shaders rfl rfl)

/-- An evaluation runs the same if it spares the subroutine in the stage, unless the stage defines that in
the end. -/
theorem sameRunUnlessDefined_evaluateAmong (refusal : CompileError) (depth : Nat) (id : NodeId)
    (pin : PinId) (s : EmitState) : SameRunUnlessDefined env home r s
      (evaluateAmong (Spares env.dialect home r) refusal depth id pin) (evaluateWithin depth id pin) := by
  induction depth generalizing id pin s with
  | zero => exact .of_sameRun rfl
  | succ depth ih =>
    rw [evaluateAmong, evaluateWithin_succ]
    by_cases hstarts : ∃ n, s.Starts env.graph id pin n
    · obtain ⟨n, hstarts⟩ := hstarts
      intro v t h
      have hremembers := remembers_evaluateWithin env depth
      have hrun := returns_of_starts hstarts h
      by_cases hspared : Spares env.dialect home r s.stage n
      · refine (sameRunUnlessDefined_runNode hremembers ih s () t hrun).imp_left fun hsame ↦
          sameRun_evaluateWith fun m hm ↦ ?_
        obtain rfl : n = m := Option.some.inj (hstarts.node.symm.trans hm.node)
        rw [SameRun, run_bind_of_returns (returns_currentStage.mpr ⟨rfl, rfl⟩), if_pos hspared]
        exact hsame
      · -- The emitter that starts is one of the subroutine, in the stage.
        obtain ⟨rfl, hn⟩ := not_not.mp hspared
        obtain ⟨u, hemit, rfl⟩ := returns_runNode.mp hrun
        exact .inr ((defines_emitKind hremembers hn hemit).of_remembers (.of_shaders rfl rfl))
    · exact .of_sameRun (sameRun_evaluateWith fun n hn ↦ absurd ⟨n, hn⟩ hstarts)

end Sparing

/-! ## Emissions -/

/-- The emission in which emitters start only where they are allowed. -/
def emissionAmong (allowed : ShaderStage → Node → Prop) [∀ stage, DecidablePred (allowed stage)]
    (refusal : CompileError) (settings : Settings) (g : Graph) : Except CompileError EmitState :=
  emissionBy (g.visit (g.nodes.size + 1)) (evaluateAmong allowed refusal (emissionDepth g)) settings g

section Emission

variable {env : EmitEnv} {demand demand' : Demand} {n : Node} {ns : List Node} {s t : EmitState}
  {home : ShaderStage} {r : Subroutine}

theorem remembers_forM (hremembers : demand.Remembers env)
    (h : Returns env (ns.forM (runNode demand)) s () t) : s.Remembers t := by
  induction ns generalizing s with
  | nil =>
    obtain ⟨-, rfl⟩ := returns_pure.mp h
    exact .refl _
  | cons n ns ih =>
    obtain ⟨u, hn, hns⟩ := returns_forM_cons.mp h
    exact (remembers_runNode hremembers hn).trans (ih hns)

theorem sameRunUnlessDefined_forM (hremembers : demand.Remembers env)
    (hdemand : ∀ id pin s, SameRunUnlessDefined env home r s (demand' id pin) (demand id pin))
    (s : EmitState) :
    SameRunUnlessDefined env home r s (ns.forM (runNode demand')) (ns.forM (runNode demand)) := by
  induction ns generalizing s with
  | nil =>
    change SameRunUnlessDefined env home r s (pure ()) (pure ())
    exact .of_sameRun rfl
  | cons n ns ih =>
    exact (sameRunUnlessDefined_runNode hremembers hdemand s).bind (fun _ t _ ↦ ih t)
      fun _ _ _ _ _ h ↦ remembers_forM hremembers h

theorem sameRunUnlessDefined_emitProgramBy (hremembers : demand.Remembers env)
    (hdemand : ∀ id pin s, SameRunUnlessDefined env home r s (demand' id pin) (demand id pin))
    (s : EmitState) :
    SameRunUnlessDefined env home r s (emitProgramBy demand' n ns) (emitProgramBy demand n ns) := by
  have henter (stage : ShaderStage) (s : EmitState) :
      Returns env (enter stage) s () { s with stage := stage } := returns_modify.mpr rfl
  have hremembered {stage : ShaderStage} {s u : EmitState} {a : Unit}
      (h : Returns env (enter stage) s a u) : s.Remembers u := by
    cases (henter stage s).symm.trans h
    exact .of_shaders rfl rfl
  refine .after (henter .pixel s) (.bind (sameRunUnlessDefined_runNode hremembers hdemand _)
    (fun _ t _ ↦ .after (henter .vertex t) (.bind (sameRunUnlessDefined_forM hremembers hdemand _)
      (fun _ _ _ ↦ .of_sameRun rfl) ?_)) ?_)
  · exact fun _ _ _ _ _ h ↦ hremembered h
  · intro _ _ _ _ _ h
    obtain ⟨_, _, hvertex, h⟩ := returns_bind.mp h
    obtain ⟨_, _, hns, hpixel⟩ := returns_bind.mp h
    exact (hremembered hvertex).trans ((remembers_forM hremembers hns).trans (hremembered hpixel))

theorem emissionBy_eq_ok {settings : Settings} {g : Graph} (hvalid : g.validate = .ok ())
    (hterminal : g.terminal = .ok n) (h : Returns ⟨g, settings⟩
      (emitProgramBy demand n (g.nodesOfKind NodeKind.isVertexOutput)) {} () s) :
    emissionBy (g.visit (g.nodes.size + 1)) demand settings g = .ok s := by
  unfold emissionBy
  change (g.validate.mapError (GraphError.toCompileError g) >>= fun _ ↦ _) = _
  rw [hvalid, hterminal]
  simp only [Except.mapError, bind, Except.bind]
  rw [show _ = (Except.ok (), s) from h]
  rfl

/-- An emission is the same if it spares the subroutine in the stage, unless the stage defines that in the
end. -/
theorem emissionAmong_eq_or_defines {settings : Settings} {g : Graph} (refusal : CompileError)
    (home : ShaderStage) (r : Subroutine) (h : emission settings g = .ok s) :
    emissionAmong (Spares settings.backend.dialect home r) refusal settings g = .ok s ∨
      s.Defines home r := by
  obtain ⟨hvalid, n, hterminal, hrun⟩ := emission_eq_ok_iff.mp h
  let env : EmitEnv := ⟨g, settings⟩
  have hremembers : Demand.Remembers env evaluate := fun id pin s v t h ↦
    remembers_evaluateWithin env _ id pin s v t (returns_evaluate.mp h)
  have hdemand (id : NodeId) (pin : PinId) (s : EmitState) : SameRunUnlessDefined env home r s
      (evaluateAmong (Spares env.dialect home r) refusal (emissionDepth g) id pin) (evaluate id pin) := by
    intro v t h
    refine Or.imp_left (fun hsame ↦ ?_) (sameRunUnlessDefined_evaluateAmong refusal (emissionDepth g)
      id pin s v t (returns_evaluate.mp h))
    rw [SameRun, run_evaluate env]
    exact hsame
  refine (sameRunUnlessDefined_emitProgramBy hremembers hdemand {} () s hrun).imp_left fun hsame ↦ ?_
  exact emissionBy_eq_ok hvalid hterminal (hsame.returns hrun)

end Emission

/-! ## Programs -/

/-- Scripts of one name agree in the body. -/
def Graph.SharesBodies (d : Dialect) (g : Graph) : Prop :=
  ∀ n ∈ g.nodes.values, ∀ m ∈ g.nodes.values, ∀ q r : Subroutine,
    n.subroutine? d = some q → m.subroutine? d = some r → q.name = r.name → q.body = r.body

/-- A stage has the subroutines that it defines, and no others. -/
theorem EmitState.Defines.exists_mem {s : EmitState} {stage : ShaderStage} {r : Subroutine}
    {subroutines : List Subroutine} (h : s.Defines stage r)
    (htable : (s.shader stage).signatures =
      (subroutines.map fun r ↦ (r.name, r.signature)).reverse) :
    ∃ q ∈ subroutines, q.name = r.name ∧ q.signature = r.signature := by
  obtain ⟨_, _, hentries, -⟩ := List.lookup_eq_some_iff.mp h
  have hentry : (r.name, r.signature) ∈ (s.shader stage).signatures := by
    rw [hentries]
    simp
  rw [htable, List.mem_reverse] at hentry
  obtain ⟨q, hq, heq⟩ := List.mem_map.mp hentry
  exact ⟨q, hq, congrArg Prod.fst heq, congrArg Prod.snd heq⟩

/-- The subroutines of a stage at the end of an emission. -/
structure EmitState.HasSubroutines (s : EmitState) (settings : Settings) (g : Graph) (stage : ShaderStage)
    (subroutines : List Subroutine) : Prop where
  /-- The stage defines them one after another. -/
  text : (s.shader stage).blockText .scripts = (subroutines.foldl Subroutine.write {}).text
  distinct : (subroutines.map Subroutine.name).Nodup
  /-- Each of them is called by a script of the graph. -/
  scripts : ∀ r ∈ subroutines, ∃ n ∈ g.nodes.values, n.subroutine? settings.backend.dialect = some r
  /-- If a script runs in the stage, the stage has a subroutine of its name and its signature, which is that
  of the script if scripts of one name agree in the body. -/
  defined : ∀ n ∈ g.nodes.values, ∀ r, n.subroutine? settings.backend.dialect = some r →
    (∀ refusal, emissionAmong (Spares settings.backend.dialect stage r) refusal settings g = .ok s) ∨
      ∃ q ∈ subroutines, q.name = r.name ∧ q.signature = r.signature ∧
        (g.SharesBodies settings.backend.dialect → q = r)

/-- Every stage of a compiled program defines subroutines under distinct names, each as a script of the graph
has it, and among them is one for each script that runs in the stage. -/
theorem compile_subroutines {settings : Settings} {g : Graph} {a : Artifact}
    (h : compile settings g = .ok a) :
    ∃ s, emission settings g = .ok s ∧ a = s.artifact settings ∧
      ∀ stage, ∃ subroutines, s.HasSubroutines settings g stage subroutines := by
  obtain ⟨s, hemission, ha⟩ := compile_eq_ok_iff.mp h
  refine ⟨s, hemission, ha, fun stage ↦ ?_⟩
  obtain ⟨subroutines, htable, hblock, hnames, hscripts⟩ := (emission_defined hemission).scripted stage
  refine ⟨subroutines, congrArg CodeBuffer.text hblock, hnames, hscripts, fun n hn r hr ↦ ?_⟩
  by_cases hdefined : s.Defines stage r
  · obtain ⟨q, hq, hname, hsignature⟩ := hdefined.exists_mem htable
    refine .inr ⟨q, hq, hname, hsignature, fun hbodies ↦ ?_⟩
    obtain ⟨m, hm, hmq⟩ := hscripts q hq
    exact Subroutine.ext hname hsignature (hbodies m hm n hn q r hmq hr hname)
  · exact .inl fun refusal ↦
      (emissionAmong_eq_or_defines refusal stage r hemission).resolve_right hdefined

/-- The sum of what two scripts of one name and one signature make of a parameter. -/
def scriptSum (body body' : String) : Graph :=
  .numbered
    [.pixelOutput {}, .arithmetic .add, .script "f" body [⟨"a", .scalar⟩] [⟨"o", .scalar⟩],
      .script "f" body' [⟨"a", .scalar⟩] [⟨"o", .scalar⟩], .uniform "A" .scalar]
    [⟨1, "Output", 0, "Input"⟩, ⟨2, "o", 1, "Input1"⟩, ⟨3, "o", 1, "Input2"⟩,
      ⟨4, "Output", 2, "a"⟩, ⟨4, "Output", 3, "a"⟩]

/-- Scripts with one body. -/
theorem compile_subroutines_scriptSum :
    ∃ a s, compile {} (scriptSum "o = a;" "o = a;") = .ok a ∧
      emission {} (scriptSum "o = a;" "o = a;") = .ok s ∧ a = s.artifact {} ∧
      ∀ stage, ∃ subroutines, s.HasSubroutines {} (scriptSum "o = a;" "o = a;") stage subroutines := by
  obtain ⟨a, h⟩ := exists_ok_of_isOk (x := compile {} (scriptSum "o = a;" "o = a;"))
    (by decide +kernel)
  obtain ⟨s, hsubroutines⟩ := compile_subroutines h
  exact ⟨a, s, h, hsubroutines⟩

/-- Scripts with bodies of their own: both run in the pixel stage, which has the body of the first one
only. -/
theorem definesOnce_scriptSum :
    (scriptSum "o = a;" "o = -a;").Built ∧
      ∃ a s, compile {} (scriptSum "o = a;" "o = -a;") = .ok a ∧
        emission {} (scriptSum "o = a;" "o = -a;") = .ok s ∧ a = s.artifact {} ∧
        ∃ q r : Subroutine, q.name = r.name ∧ q.body ≠ r.body ∧
          (∃ n ∈ (scriptSum "o = a;" "o = -a;").nodes.values, n.subroutine? .glsl = some q) ∧
          (∃ n ∈ (scriptSum "o = a;" "o = -a;").nodes.values, n.subroutine? .glsl = some r) ∧
          ¬ (emissionAmong (Spares .glsl .pixel q) .missingTerminal {}
            (scriptSum "o = a;" "o = -a;")).isOk ∧
          ¬ (emissionAmong (Spares .glsl .pixel r) .missingTerminal {}
            (scriptSum "o = a;" "o = -a;")).isOk ∧
          (s.shader .pixel).blockText .scripts = (Subroutine.write {} q).text := by
  have hscripts : ((emission {} (scriptSum "o = a;" "o = -a;")).map fun s ↦
      (s.shader .pixel).blockText .scripts).toOption =
        some "void f(float a, out float o)\n\x7b\n\to = a;\n\x7d\n" := by
    decide +kernel
  have htext : (Subroutine.write {} ⟨"f", "void f(float a, out float o)", "o = a;"⟩).text =
      "void f(float a, out float o)\n\x7b\n\to = a;\n\x7d\n" := by
    decide +kernel
  obtain ⟨s, h, hblock⟩ := exists_ok_of_map hscripts
  exact ⟨Graph.built_numbered _ _, _, s, compile_eq_ok_iff.mpr ⟨s, h, rfl⟩, h, rfl,
    ⟨"f", "void f(float a, out float o)", "o = a;"⟩,
    ⟨"f", "void f(float a, out float o)", "o = -a;"⟩, rfl, by simp, by decide +kernel,
    by decide +kernel, by decide +kernel, by decide +kernel, hblock.trans htext.symm⟩

end ShaderGraph
