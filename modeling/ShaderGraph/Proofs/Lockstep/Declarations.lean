import ShaderGraph.Proofs.Lockstep.Primitives

/-!
# Declarations and captures in lockstep

Declarations enter related entries into the tables. Which names are declared in a stage already does not
matter, because it decides about texts only.
-/

namespace ShaderGraph

/-- Only the current stage is written to. -/
theorem EmitState.declareOnce_eq_modifyShader (s : EmitState) (block : Block) (name : String)
    (declaration? : Option String) :
    s.declareOnce block name declaration? =
      s.modifyShader s.stage fun shader ↦ shader.declareOnce block name declaration? := by
  have hconst (f : StageShader → StageShader) :
      s.modifyShader s.stage f = s.modifyShader s.stage fun _ ↦ f (s.shader s.stage) := by
    cases s.stage <;> rfl
  have hself : s = s.modifyShader s.stage fun _ ↦ s.shader s.stage := by
    cases s.stage <;> rfl
  rw [EmitState.declareOnce, hconst fun shader ↦ shader.declareOnce block name declaration?]
  unfold StageShader.declareOnce
  split
  · exact hself
  · exact hconst _

namespace Lock

variable {L : Lock} {running : List NodeId} {s t s' t' : EmitState}

namespace Related

theorem declareOnce (h : L.Related running s t) (block : Block) {name name' : String}
    {d? d'? : Option String} (hname : L.exact → name' = name) (hd : L.exact → d'? = d?) :
    L.Related running (s.declareOnce block name d?) (t.declareOnce block name' d'?) := by
  rw [EmitState.declareOnce_eq_modifyShader, EmitState.declareOnce_eq_modifyShader, h.stage]
  exact h.modifyShader s.stage fun hshader ↦ hshader.declareOnce block hname hd

theorem beginCapture (h : L.Related running s t) :
    L.Related running s.beginCapture t.beginCapture := by
  unfold EmitState.beginCapture
  rw [h.stage]
  exact h.modifyShader s.stage fun hshader ↦ hshader.beginCapture.openScope

theorem endCapture (h : L.Related running s t) (stage : ShaderStage) :
    L.Related running (s.endCapture stage) (t.endCapture stage) :=
  (h.enter stage).modifyShader stage fun hshader ↦ hshader.closeScope.endCapture

theorem capturedText (h : L.Related running s t) (stage : ShaderStage) :
    L.Body (s.capturedText stage) (t.capturedText stage) :=
  fun hexact ↦ ((h.shader stage).closeScope.texts hexact).endCapture.1

theorem addUniform {u v : UniformDeclaration} {name name' : String} (h : L.Related running s t)
    (hname : L.Name name name') (huv : L.Uniform u v) :
    L.Related running (s.addUniform name u) (t.addUniform name' v) :=
  { h with
    shader := h.shader
    uniforms := insertEntry_related faithful_name h.uniforms hname huv }

theorem addSampler {u v : SamplerDeclaration} (h : L.Related running s t) (huv : L.Sampler u v) :
    L.Related running (s.addSampler u) (t.addSampler v) :=
  { h with
    shader := h.shader
    samplers := insertEntry_related faithful_name h.samplers huv.name huv }

theorem samplerEntry {v w : Variable} (h : L.Related running s t) (hv : L.Value v w)
    (htexture : v.type.isTexture) (state : SamplerState) :
    L.Sampler (s.samplerEntry L.left.dialect v state)
      (t.samplerEntry L.right.dialect w state) := by
  have hrel : Option.Rel L.Sampler (s.sharedSampler? v.name state) (t.sharedSampler? w.name state) :=
    find?_related (values_related h.samplers) fun a b hab ↦ by rw [hv.texture htexture, hab.rest]
  unfold EmitState.samplerEntry
  generalize s.sharedSampler? v.name state = x at hrel ⊢
  generalize t.sharedSampler? w.name state = y at hrel ⊢
  cases hrel with
  | @some a b hab =>
    refine ⟨hab.name, ?_⟩
    dsimp only
    rw [hab.rest, h.stage]
  | none =>
    rw [hv.texture htexture, hv.type, h.stage]
    have hname := name_freshSamplerName h.samplers ("sampler_" ++ v.name)
    simp only [← String.append_assoc] at hname
    exact ⟨hname, rfl⟩

end Related

theorem run_capture {α : Type} {action : EmitM α} {env : EmitEnv} (s : EmitState) :
    ((EmitM.capture action).run env).run.run s =
      EmitM.finishRun (·.endCapture s.stage) (fun u a ↦ (a, u.capturedText s.stage))
        ((action.run env).run.run s.beginCapture) := by
  cases h : (action.run env).run.run s.beginCapture with
  | mk result u =>
    cases result with
    | ok a => exact EmitM.returns_capture.mpr ⟨u, h, rfl, rfl⟩
    | error e =>
      unfold EmitM.capture
      rw [EmitM.run_bind_of_returns (EmitM.returns_currentStage.mpr ⟨rfl, rfl⟩),
        EmitM.run_bind_of_returns (a := ()) (t := s.beginCapture) (EmitM.returns_modifyStage.mpr rfl),
        EmitM.run_bind_of_returns (EmitM.returns_attempt.mpr h),
        EmitM.run_bind_of_returns (a := ()) (EmitM.returns_enter.mpr rfl),
        EmitM.run_bind_of_returns (EmitM.returns_get.mpr ⟨rfl, rfl⟩)]
      dsimp only
      rw [EmitM.run_bind_of_returns (a := ()) (EmitM.returns_modifyStage.mpr rfl)]
      exact congrArg (Prod.mk (Except.error e)) (EmitState.modifyShader_const
        { u with stage := s.stage } s.stage fun shader ↦ shader.closeScope.endCapture.2)

namespace Lockstep

variable {n m : Node}

theorem declareOnce {block : Block} {name name' : String} {d? d'? : Option String}
    (hname : L.exact → name' = name) (hd : L.exact → d'? = d?) :
    L.Lockstep running Eq (EmitM.declareOnce block name d?)
      (EmitM.declareOnce block name' d'?) :=
  .of_returns fun _ _ hst ↦ ⟨(), _, (), _, EmitM.returns_declareOnce.mpr rfl,
    EmitM.returns_declareOnce.mpr rfl, rfl, hst.declareOnce block hname hd⟩

theorem capture {α β : Type} {Q : α → β → Prop} {x : EmitM α} {y : EmitM β}
    (h : L.Lockstep running Q x y) :
    L.Lockstep running (fun a b ↦ Q a.1 b.1 ∧ L.Body a.2 b.2) (EmitM.capture x)
      (EmitM.capture y) := by
  refine .framed EmitState.beginCapture EmitState.beginCapture
    (fun s u ↦ u.endCapture s.stage) (fun t v ↦ v.endCapture t.stage)
    (fun s u a ↦ (a, u.capturedText s.stage)) (fun t v b ↦ (b, v.capturedText t.stage))
    run_capture run_capture (fun _ _ hst ↦ hst.beginCapture) (fun s t u v hst huv ↦ ?_)
    (fun s t u v a b hst huv hab ↦ ⟨hab, ?_⟩) h
  · rw [hst.stage]
    exact huv.endCapture s.stage
  · rw [hst.stage]
    exact huv.capturedText s.stage

/-! ## Uniforms and samplers -/

theorem declareUniform (hn : L.Twin n m) {name name' : String} (hname : L.Name name name')
    (type : ValueType) (length? : Option UInt32) :
    L.Lockstep running Eq (EmitM.declareUniform n name type length?)
      (EmitM.declareUniform m name' type length?) := by
  refine .bind .get fun s t hst ↦ ?_
  have hinsert (u v : UniformDeclaration) (huv : L.Uniform u v) : L.Lockstep running Eq
      (do
        MonadStateOf.set (s.addUniform name u)
        EmitM.declareOnce .uniforms name
          ((← EmitM.dialect).uniformDeclaration? type name length?))
      (do
        MonadStateOf.set (t.addUniform name' v)
        EmitM.declareOnce .uniforms name'
          ((← EmitM.dialect).uniformDeclaration? type name' length?)) :=
    .seq (.set (hst.addUniform hname huv)) (.dialect_bind (.declareOnce
      (fun h ↦ hname.exact h) fun h ↦ by rw [hname.exact h, L.dialect_eq h]))
  have hrel := lookup_related faithful_name hst.uniforms hname
  unfold OrderedMap.get?
  generalize s.uniforms.entries.lookup name = x at hrel ⊢
  generalize t.uniforms.entries.lookup name' = y at hrel ⊢
  cases hrel with
  | none => exact hinsert _ _ ⟨hname, by rw [hst.stage]⟩
  | @some u v huv =>
    dsimp only
    rw [huv.rest]
    refine .guard (fun h ↦ by rw [hn.same h, hname.exact (L.exact_of_strict h)]) fun _ ↦
      hinsert _ _ ⟨huv.name, ?_⟩
    rw [hst.stage]

theorem declareSampler {v w : Variable} {samplerType samplerType' : String} (hv : L.Value v w)
    (htexture : v.type.isTexture) (state : SamplerState) (htype : L.Text samplerType samplerType') :
    L.Lockstep running L.Text (EmitM.declareSampler v state samplerType)
      (EmitM.declareSampler w state samplerType') := by
  refine .of_returns fun s t hst ↦ ⟨_, _, _, _, EmitM.returns_declareSampler.mpr ⟨rfl, rfl⟩,
    EmitM.returns_declareSampler.mpr ⟨rfl, rfl⟩, ?_, ?_⟩
  all_goals have hentry := hst.samplerEntry hv htexture state
  · exact fun h ↦ hentry.name.exact h
  · refine (hst.addSampler hentry).declareOnce .samplers (fun h ↦ hentry.name.exact h) fun h ↦ ?_
    rw [htype h, hentry.name.exact h, L.dialect_eq h]

end Lockstep

end Lock

/-! ## Signatures

Two definitions of one subroutine clash if their signatures differ. A signature lists types and names, so
signatures that agree in one dialect agree in the other ones as well, unless a name holds a comma and
passes for several parameters.
-/

/-- Types have distinct names that are words of their own. -/
structure Dialect.HasPlainTypes (d : Dialect) : Prop where
  plain : ∀ t ≠ .void, ' ' ∉ (d.typeNameOrVoid t).toList ∧ ',' ∉ (d.typeNameOrVoid t).toList ∧
    d.typeNameOrVoid t ≠ "out"
  distinct : ∀ t u, t ≠ .void → u ≠ .void → d.typeNameOrVoid t = d.typeNameOrVoid u → t = u

theorem Backend.hasPlainTypes (b : Backend) : b.dialect.HasPlainTypes := by
  constructor
  · intro t ht
    cases b <;> cases t <;> first | contradiction | decide
  · intro t u ht hu h
    cases b <;> cases t <;> cases u <;> first | rfl | contradiction

/-! ### Texts that separators take apart -/

theorem append_cons_inj {α : Type} {c : α} {as bs as' bs' : List α} (h : c ∉ as) (h' : c ∉ as')
    (heq : as ++ c :: bs = as' ++ c :: bs') : as = as' ∧ bs = bs' := by
  induction as generalizing as' with
  | nil =>
    cases as' with
    | nil => exact ⟨rfl, (List.cons.inj heq).2⟩
    | cons a as' =>
      obtain ⟨rfl, -⟩ := List.cons.inj heq
      exact absurd List.mem_cons_self h'
  | cons a as ih =>
    cases as' with
    | nil =>
      obtain ⟨rfl, -⟩ := List.cons.inj heq
      exact absurd List.mem_cons_self h
    | cons a' as' =>
      obtain ⟨ha, hrest⟩ := List.cons.inj heq
      obtain ⟨has, hbs⟩ := ih (fun hc ↦ h (List.mem_cons_of_mem _ hc))
        (fun hc ↦ h' (List.mem_cons_of_mem _ hc)) hrest
      exact ⟨by rw [ha, has], hbs⟩

/-- Texts that are not empty can be told from their list, if they do not hold the separator. -/
theorem intercalate_inj {α : Type} {c : α} {sep : List α} {xs ys : List (List α)}
    (hxs : ∀ x ∈ xs, c ∉ x ∧ x ≠ []) (hys : ∀ y ∈ ys, c ∉ y ∧ y ≠ [])
    (h : (c :: sep).intercalate xs = (c :: sep).intercalate ys) : xs = ys := by
  induction xs generalizing ys with
  | nil =>
    match ys with
    | [] => rfl
    | [y] => exact absurd (by simpa using h.symm) (hys y List.mem_cons_self).2
    | y :: z :: ys =>
      rw [List.intercalate_cons_cons] at h
      simp at h
  | cons x xs ih =>
    obtain ⟨hx, hxs⟩ := List.forall_mem_cons.mp hxs
    match ys with
    | [] =>
      cases xs with
      | nil => exact absurd (by simpa using h) hx.2
      | cons x' xs =>
        rw [List.intercalate_cons_cons] at h
        simp at h
    | [y] =>
      cases xs with
      | nil => simpa using h
      | cons x' xs =>
        rw [List.intercalate_cons_cons] at h
        have hmem : c ∈ y := by
          rw [show y = (c :: sep).intercalate [y] by simp, ← h]
          simp
        exact absurd hmem (hys y List.mem_cons_self).1
    | y :: z :: ys =>
      obtain ⟨hy, hys⟩ := List.forall_mem_cons.mp hys
      cases xs with
      | nil =>
        rw [List.intercalate_cons_cons] at h
        have hmem : c ∈ x := by
          rw [show x = (c :: sep).intercalate [x] by simp, h]
          simp
        exact absurd hmem hx.1
      | cons x' xs =>
        rw [List.intercalate_cons_cons, List.intercalate_cons_cons, List.append_assoc,
          List.append_assoc, List.cons_append, List.cons_append] at h
        obtain ⟨hxy, hrest⟩ := append_cons_inj hx.1 hy.1 h
        rw [hxy, ih hxs hys (List.append_cancel_left hrest)]

/-! ### Parameters -/

section Parameters

variable {d e : Dialect}

/-- A parameter can be read off its text. -/
theorem parameter_inj (hd : d.HasPlainTypes) {isOutput isOutput' : Bool} {pin pin' : ScriptPin}
    (hpin : pin.type ≠ .void) (hpin' : pin'.type ≠ .void)
    (h : d.parameter isOutput pin = d.parameter isOutput' pin') :
    isOutput = isOutput' ∧ pin = pin' := by
  have hlist (isOutput : Bool) (pin : ScriptPin) : (d.parameter isOutput pin).toList =
      (if isOutput then "out ".toList else []) ++
        ((d.typeNameOrVoid pin.type).toList ++ ' ' :: pin.name.toList) := by
    cases isOutput <;> simp [Dialect.parameter]
  have hpins (heq : (d.typeNameOrVoid pin.type).toList ++ ' ' :: pin.name.toList =
      (d.typeNameOrVoid pin'.type).toList ++ ' ' :: pin'.name.toList) : pin = pin' := by
    obtain ⟨htype, hname⟩ :=
      append_cons_inj (hd.plain _ hpin).1 (hd.plain _ hpin').1 heq
    have htypes := hd.distinct _ _ hpin hpin' (String.toList_injective htype)
    have hnames := String.toList_injective hname
    cases pin
    cases pin'
    rw [ScriptPin.mk.injEq]
    exact ⟨hnames, htypes⟩
  have hlists := congrArg String.toList h
  rw [hlist, hlist] at hlists
  -- The word in front tells an output apart.
  have hmixed {pin : ScriptPin} (hpin : pin.type ≠ .void) {rest rest' : List Char}
      (heq : "out".toList ++ ' ' :: rest = (d.typeNameOrVoid pin.type).toList ++ ' ' :: rest') :
      False :=
    (hd.plain _ hpin).2.2 (String.toList_injective
      (append_cons_inj (by decide) (hd.plain _ hpin).1 heq).1.symm)
  cases isOutput <;> cases isOutput'
  · exact ⟨rfl, hpins hlists⟩
  · exact (hmixed hpin hlists.symm).elim
  · exact (hmixed hpin' hlists).elim
  · exact ⟨rfl, hpins (List.append_cancel_left hlists)⟩

/-- The parameters of a subroutine, the inputs first. -/
def parameters (inputs outputs : List ScriptPin) : List (Bool × ScriptPin) :=
  inputs.map (false, ·) ++ outputs.map (true, ·)

theorem signature_eq (d : Dialect) (name : String) (inputs outputs : List ScriptPin) :
    d.signature name inputs outputs =
      "void " ++ name ++ "(" ++ ", ".intercalate
        ((parameters inputs outputs).map fun p ↦ d.parameter p.1 p.2) ++ ")" := by
  simp [Dialect.signature, parameters, Function.comp_def]

theorem parameters_eq_of_texts (hd : d.HasPlainTypes) {ps qs : List (Bool × ScriptPin)}
    (hps : ∀ p ∈ ps, p.2.type ≠ .void) (hqs : ∀ q ∈ qs, q.2.type ≠ .void)
    (h : (ps.map fun p ↦ d.parameter p.1 p.2) = qs.map fun q ↦ d.parameter q.1 q.2) : ps = qs := by
  induction ps generalizing qs with
  | nil => exact (List.map_eq_nil_iff.mp h.symm).symm
  | cons p ps ih =>
    cases qs with
    | nil => cases h
    | cons q qs =>
      obtain ⟨hp, hps⟩ := List.forall_mem_cons.mp hps
      obtain ⟨hq, hqs⟩ := List.forall_mem_cons.mp hqs
      obtain ⟨hhead, htail⟩ := List.cons.inj h
      obtain ⟨houtput, hpin⟩ := parameter_inj hd hp hq hhead
      rw [ih hps hqs htail, Prod.ext houtput hpin]

/-- Subroutines of one name that have the same signature in one dialect have the same parameters. -/
theorem signature_inj (hd : d.HasPlainTypes) {name : String}
    {inputs outputs inputs' outputs' : List ScriptPin}
    (hpins : ∀ pin ∈ inputs ++ outputs, pin.IsPlain ∧ pin.type ≠ .void)
    (hpins' : ∀ pin ∈ inputs' ++ outputs', pin.IsPlain ∧ pin.type ≠ .void)
    (h : d.signature name inputs outputs = d.signature name inputs' outputs') :
    parameters inputs outputs = parameters inputs' outputs' := by
  have hmem {inputs outputs : List ScriptPin} {p : Bool × ScriptPin}
      (hp : p ∈ parameters inputs outputs) : p.2 ∈ inputs ++ outputs := by
    rcases List.mem_append.mp hp with hp | hp <;> obtain ⟨pin, hpin, rfl⟩ := List.mem_map.mp hp
    · exact List.mem_append_left _ hpin
    · exact List.mem_append_right _ hpin
  have htext {ps : List (Bool × ScriptPin)} (hps : ∀ p ∈ ps, p.2.IsPlain ∧ p.2.type ≠ .void) :
      ∀ x ∈ (ps.map fun p ↦ d.parameter p.1 p.2).map String.toList, ',' ∉ x ∧ x ≠ [] := by
    intro x hx
    simp only [List.map_map, List.mem_map, Function.comp_apply] at hx
    obtain ⟨⟨isOutput, pin⟩, hp, rfl⟩ := hx
    obtain ⟨hplain, htype⟩ := hps _ hp
    have hcomma := (hd.plain _ htype).2.1
    unfold ScriptPin.IsPlain at hplain
    cases isOutput <;> simp_all [Dialect.parameter]
  rw [signature_eq, signature_eq, String.append_left_inj, String.append_right_inj] at h
  have hlists := congrArg String.toList h
  rw [String.toList_intercalate, String.toList_intercalate] at hlists
  have hmaps := intercalate_inj (htext fun p hp ↦ hpins _ (hmem hp))
    (htext fun p hp ↦ hpins' _ (hmem hp)) hlists
  exact parameters_eq_of_texts hd (fun p hp ↦ (hpins _ (hmem hp)).2)
    (fun p hp ↦ (hpins' _ (hmem hp)).2)
    (List.map_injective_iff.mpr (fun _ _ h ↦ String.toList_injective h) hmaps)

end Parameters

namespace Lock

variable {L : Lock} {running : List NodeId} {name a b a' b' : String}

theorem signature_of_types (h : L.right.dialect.types = L.left.dialect.types) (name : String)
    (inputs outputs : List ScriptPin) :
    L.right.dialect.signature name inputs outputs = L.left.dialect.signature name inputs outputs := by
  have htype (t : ValueType) :
      L.right.dialect.typeNameOrVoid t = L.left.dialect.typeNameOrVoid t := by
    cases t <;> simp [Dialect.typeNameOrVoid, Dialect.typeName?, h]
  have hparameter (isOutput : Bool) :
      L.right.dialect.parameter isOutput = L.left.dialect.parameter isOutput :=
    funext fun pin ↦ by rw [Dialect.parameter, Dialect.parameter, htype]
  rw [Dialect.signature, Dialect.signature, hparameter, hparameter]

theorem Signature.exact (h : L.Signature name a b) (hexact : L.exact) : b = a := by
  obtain ⟨h, -⟩ | ⟨inputs, outputs, -, rfl, rfl⟩ := h
  · exact h
  · rw [L.dialect_eq hexact]

/-- Signatures that agree in the first dialect agree in the second one. -/
theorem Signature.congr (ha : L.Signature name a a') (hb : L.Signature name b b') (h : a = b) :
    a' = b' := by
  have hsame (htypes : L.right.dialect.types = L.left.dialect.types) {a a' : String}
      (ha : L.Signature name a a') : a' = a := by
    obtain ⟨h, -⟩ | ⟨inputs, outputs, -, rfl, rfl⟩ := ha
    · exact h
    · exact signature_of_types htypes name inputs outputs
  by_cases htypes : L.right.dialect.types = L.left.dialect.types
  · rw [hsame htypes ha, hsame htypes hb, h]
  · obtain ⟨inputs, outputs, hpins, rfl, rfl⟩ := ha.resolve_left fun h ↦ htypes h.2
    obtain ⟨inputs', outputs', hpins', rfl, rfl⟩ := hb.resolve_left fun h ↦ htypes h.2
    have hparameters := signature_inj (Backend.hasPlainTypes _) hpins hpins' h
    rw [signature_eq, signature_eq, hparameters]

theorem script_related {es fs : List (String × String)} (h : List.Forall₂ L.Script es fs)
    (name : String) : Option.Rel (L.Signature name) (es.lookup name) (fs.lookup name) := by
  induction h with
  | nil => exact .none
  | @cons e f _ _ hef _ ih =>
    obtain ⟨hname, hsignature⟩ := hef
    rw [List.lookup_cons, List.lookup_cons, hname]
    cases h : name == e.1 with
    | true =>
      obtain rfl : name = e.1 := by simpa using h
      exact .some hsignature
    | false => exact ih

namespace Lockstep

variable {n m : Node}

theorem defineScript (hn : L.Twin n m) (h : L.Signature name a b) (body : String) :
    L.Lockstep running Eq (Emitter.defineScript n name a body)
      (Emitter.defineScript m name b body) := by
  refine .bind .get fun s t hst ↦ ?_
  have hrel := script_related (hst.shader s.stage).signatures name
  rw [hst.stage]
  unfold StageShader.signature?
  generalize (s.shader s.stage).signatures.lookup name = x at hrel ⊢
  generalize (t.shader s.stage).signatures.lookup name = y at hrel ⊢
  cases hrel with
  | none =>
    exact .modifyShader fun s t hst ↦ (hst.modifyBlock .scripts fun hexact ↦ by
      rw [h.exact hexact]).defineScript h
  | @some c d hcd =>
    dsimp only
    by_cases heq : c = a
    · rw [if_neg (by simpa using heq), if_neg (by simpa using hcd.congr h heq)]
      exact .pure rfl
    · rw [if_pos heq]
      by_cases hstrict : L.strict
      · have hexact := L.exact_of_strict hstrict
        rw [hcd.exact hexact, h.exact hexact, if_pos heq, hn.same hstrict]
        exact .throw fun _ ↦ rfl
      · exact fun _ _ _ ↦ .error fun h ↦ absurd h hstrict

/-- Vertex attributes are vectors, so it does not matter how they are called. -/
theorem vertexAttribute (usage : AttributeUsage) {type : ValueType} (htype : type.isVector)
    (index : UInt32) :
    L.Lockstep running L.Value (Emitter.vertexAttribute name usage type index)
      (Emitter.vertexAttribute name usage type index) := by
  refine .bind .get fun s t hst ↦ ?_
  have hrel := lookup_related faithful_eq (hst.shader s.stage).attributes (rfl : name = name)
  rw [hst.stage]
  unfold StageShader.attribute?
  generalize (s.shader s.stage).attributes.lookup name = x at hrel ⊢
  generalize (t.shader s.stage).attributes.lookup name = y at hrel ⊢
  cases hrel with
  | some hv => exact .pure hv
  | none =>
    refine .dialect_bind ?_
    have hvalue : L.Value
        ⟨L.left.dialect.inputReference (L.left.dialect.vertexAttribute usage index).1, type⟩
        ⟨L.right.dialect.inputReference (L.right.dialect.vertexAttribute usage index).1, type⟩ :=
      ⟨rfl, fun h ↦ by cases type <;> simp_all [ValueType.isVector, ValueType.isTexture],
        fun h ↦ by rw [L.dialect_eq h]⟩
    exact .seq (.modifyShader fun s t hst ↦ (hst.modifyBlock .inputs fun h ↦ by
      rw [L.dialect_eq h]).addAttribute hvalue) (.pure hvalue)

end Lockstep

end Lock

end ShaderGraph
