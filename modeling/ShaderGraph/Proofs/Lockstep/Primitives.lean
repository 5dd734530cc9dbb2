import Mathlib.Tactic.SplitIfs
import ShaderGraph.Proofs.Emission.Declarations
import ShaderGraph.Proofs.Lockstep.Relation

/-!
# Primitives in lockstep

Actions that change the state in the same way are in lockstep. What they write may differ, and so may the
pins that they bind, as long as these correspond.
-/

namespace ShaderGraph

/-! ## Stages -/

namespace StageShader

/-- Declares a name, if it is not yet declared. -/
def declareOnce (s : StageShader) (block : Block) (name : String) (declaration? : Option String) :
    StageShader :=
  if s.isDeclared name then s
  else
    declaration?.toList.foldl (fun shader line ↦ shader.modifyBlock block fun b ↦ b.line line)
      (s.declare name)

/-- What a stage knows of pins, attributes and subroutines. -/
structure Index where
  stage : ShaderStage
  bindings : List Binding
  scopes : List Nat
  outer : List Binding
  attributes : List (String × Variable)
  signatures : List (String × String)

def index (s : StageShader) : Index :=
  ⟨s.stage, s.bindings, s.scopes, s.outer, s.attributes, s.signatures⟩

variable (s : StageShader)

@[simp]
theorem index_modifyBlock (b : Block) (f : CodeBuffer → CodeBuffer) :
    (s.modifyBlock b f).index = s.index := by
  cases b <;> rfl

@[simp]
theorem index_modifyBody (f : CodeBuffer → CodeBuffer) : (s.modifyBody f).index = s.index := by
  unfold modifyBody
  split <;> rfl

@[simp]
theorem index_declare (name : String) : (s.declare name).index = s.index := by
  unfold declare
  split <;> rfl

@[simp]
theorem index_declareOnce (block : Block) (name : String) (declaration? : Option String) :
    (s.declareOnce block name declaration?).index = s.index := by
  unfold declareOnce
  split
  · rfl
  · cases declaration? <;> simp

@[simp]
theorem index_beginCapture : s.beginCapture.index = s.index :=
  rfl

@[simp]
theorem index_endCapture : s.endCapture.2.index = s.index := by
  unfold endCapture
  split <;> rfl

/-! The texts after a change depend on the texts before it. -/

namespace Texts.Agree

variable {s} {t : StageShader} {agree : String → String → Prop} (h : s.texts.Agree agree t.texts)

include h

theorem declarations_eq : t.declarations = s.declarations :=
  h.declarations

theorem isDeclared (name : String) : t.isDeclared name = s.isDeclared name := by
  have hdeclared : t.declared = s.declared := congrArg Declarations.declared h.declarations
  rw [StageShader.isDeclared, StageShader.isDeclared, hdeclared]

theorem modifyBlock (b : Block) (f : CodeBuffer → CodeBuffer) :
    (s.modifyBlock b f).texts.Agree agree (t.modifyBlock b f).texts := by
  have hdeclarations := h.declarations_eq
  simp only [StageShader.declarations, Declarations.mk.injEq] at hdeclarations
  cases b <;>
    exact ⟨by simp [texts, StageShader.declarations, StageShader.modifyBlock, hdeclarations], h.main,
      h.captures⟩

theorem modifyBody {f g : CodeBuffer → CodeBuffer}
    (hfg : ∀ b c, b.Agrees agree c → (f b).Agrees agree (g c)) :
    (s.modifyBody f).texts.Agree agree (t.modifyBody g).texts := by
  have hcaptures : List.Forall₂ (CodeBuffer.Agrees agree) s.captures t.captures := h.captures
  unfold StageShader.modifyBody
  generalize s.captures = bs at hcaptures
  generalize t.captures = cs at hcaptures
  cases hcaptures with
  | nil => exact ⟨h.declarations, hfg _ _ h.main, .nil⟩
  | cons hb hrest => exact ⟨h.declarations, h.main, .cons (hfg _ _ hb) hrest⟩

theorem declare (name : String) : (s.declare name).texts.Agree agree (t.declare name).texts := by
  have hdeclarations := h.declarations_eq
  simp only [StageShader.declarations, Declarations.mk.injEq] at hdeclarations
  unfold StageShader.declare
  rw [h.isDeclared]
  split
  · exact h
  · exact ⟨by simp [texts, StageShader.declarations, hdeclarations], h.main, h.captures⟩

theorem declareOnce (block : Block) (name : String) (declaration? : Option String) :
    (s.declareOnce block name declaration?).texts.Agree agree
      (t.declareOnce block name declaration?).texts := by
  unfold StageShader.declareOnce
  rw [h.isDeclared]
  split
  · exact h
  · cases declaration? with
    | none => exact h.declare name
    | some d => exact (h.declare name).modifyBlock block fun b ↦ b.line d

theorem beginCapture [CodeBuffer.KeepsBlocks agree] :
    s.beginCapture.texts.Agree agree t.beginCapture.texts :=
  ⟨h.declarations, h.main, .cons ⟨rfl, CodeBuffer.KeepsBlocks.empty⟩ h.captures⟩

theorem endCapture [CodeBuffer.KeepsBlocks agree] :
    agree s.endCapture.1 t.endCapture.1 ∧
      s.endCapture.2.texts.Agree agree t.endCapture.2.texts := by
  have hcaptures : List.Forall₂ (CodeBuffer.Agrees agree) s.captures t.captures := h.captures
  unfold StageShader.endCapture
  generalize s.captures = bs at hcaptures
  generalize t.captures = cs at hcaptures
  cases hcaptures with
  | nil => exact ⟨CodeBuffer.KeepsBlocks.empty, h⟩
  | cons hb hrest => exact ⟨hb.text, h.declarations, h.main, hrest⟩

end Texts.Agree

end StageShader

/-- Whether a value can be converted depends on its type only. -/
theorem Variable.isOk_cast {v w : Variable} (h : w.type = v.type) (t : ValueType) (d e : Dialect) :
    (w.cast t e).isOk = (v.cast t d).isOk := by
  unfold Variable.cast
  rw [h]
  cases v.type.components? <;> cases t.components? <;> dsimp only <;> split_ifs <;> rfl

namespace Lock

variable {L : Lock} {running : List NodeId}

namespace SimilarShader

variable {s t s' t' : StageShader} {p q : PinId} {v w : Variable} {name : String}

theorem congr (h : L.SimilarShader s t) (hs : s'.index = s.index) (ht : t'.index = t.index)
    (htexts : L.exact → s'.texts.Agree L.agree t'.texts) : L.SimilarShader s' t' := by
  obtain ⟨hstage, hb, hs₁, ho, ha, hg, -⟩ := h
  simp only [StageShader.index, StageShader.Index.mk.injEq] at hs ht
  obtain ⟨hs₀, hs₂, hs₃, hs₄, hs₅, hs₆⟩ := hs
  obtain ⟨ht₀, ht₂, ht₃, ht₄, ht₅, ht₆⟩ := ht
  refine ⟨by rw [hs₀, ht₀, hstage], ?_, ?_, ?_, ?_, ?_, htexts⟩
  · rwa [hs₂, ht₂]
  · rwa [hs₃, ht₃]
  · rwa [hs₄, ht₄]
  · rwa [hs₅, ht₅]
  · rwa [hs₆, ht₆]

/-! ## Writing -/

theorem modifyBlock (h : L.SimilarShader s t) (b : Block) {f g : CodeBuffer → CodeBuffer}
    (hfg : L.exact → g = f) : L.SimilarShader (s.modifyBlock b f) (t.modifyBlock b g) :=
  h.congr (by simp) (by simp) fun hexact ↦ by
    rw [hfg hexact]
    exact (h.texts hexact).modifyBlock b f

theorem modifyBody (h : L.SimilarShader s t) {f g : CodeBuffer → CodeBuffer}
    (hfg : L.exact → ∀ b c, b.Agrees L.agree c → (f b).Agrees L.agree (g c)) :
    L.SimilarShader (s.modifyBody f) (t.modifyBody g) :=
  h.congr (by simp) (by simp) fun hexact ↦ (h.texts hexact).modifyBody (hfg hexact)

theorem beginCapture (h : L.SimilarShader s t) :
    L.SimilarShader s.beginCapture t.beginCapture :=
  h.congr rfl rfl fun hexact ↦ (h.texts hexact).beginCapture

theorem endCapture (h : L.SimilarShader s t) :
    L.SimilarShader s.endCapture.2 t.endCapture.2 :=
  h.congr (by simp) (by simp) fun hexact ↦ (h.texts hexact).endCapture.2

/-- What is declared already does not matter, because it decides about texts only. -/
theorem declareOnce (h : L.SimilarShader s t) (block : Block) {name name' : String}
    {d? d'? : Option String} (hname : L.exact → name' = name) (hd : L.exact → d'? = d?) :
    L.SimilarShader (s.declareOnce block name d?) (t.declareOnce block name' d'?) :=
  h.congr (by simp) (by simp) fun hexact ↦ by
    rw [hname hexact, hd hexact]
    exact (h.texts hexact).declareOnce block name d?

/-! ## Binding -/

theorem bind (h : L.SimilarShader s t) (hpin : L.matching.pin p q) (hv : L.Value v w) :
    L.SimilarShader (s.bind p v) (t.bind q w) :=
  { h with bindings := .cons ⟨hpin, hv⟩ h.bindings }

theorem bindOuter (h : L.SimilarShader s t) (hpin : L.matching.pin p q) (hv : L.Value v w) :
    L.SimilarShader (s.bindOuter p v) (t.bindOuter q w) :=
  { h with outer := List.rel_append h.outer (.cons ⟨hpin, hv⟩ .nil) }

theorem addAttribute (h : L.SimilarShader s t) (hv : L.Value v w) :
    L.SimilarShader (s.addAttribute name v) (t.addAttribute name w) :=
  { h with attributes := .cons ⟨rfl, hv⟩ h.attributes }

theorem defineScript {signature signature' : String} (h : L.SimilarShader s t)
    (hsignature : L.Signature name signature signature') :
    L.SimilarShader (s.defineScript name signature) (t.defineScript name signature') :=
  { h with signatures := .cons ⟨rfl, hsignature⟩ h.signatures }

theorem openScope (h : L.SimilarShader s t) : L.SimilarShader s.openScope t.openScope :=
  { h with scopes := by simp [StageShader.openScope, h.scopes, h.bindings.length_eq] }

theorem closeScope (h : L.SimilarShader s t) : L.SimilarShader s.closeScope t.closeScope := by
  unfold StageShader.closeScope
  rw [h.scopes]
  split
  · exact h
  · rw [← h.bindings.length_eq]
    exact { h with scopes := rfl, bindings := List.forall₂_drop _ h.bindings }

theorem retype (h : L.SimilarShader s t) (hpin : L.matching.pin p q) (type : ValueType)
    (htype : type.isTexture = false) : L.SimilarShader (s.retype p type) (t.retype q type) := by
  have hfirst {bs cs : List Binding} (h : List.Forall₂ (Entry L.matching.pin L.Value) bs cs) :
      List.Forall₂ (Entry L.matching.pin L.Value) (StageShader.retypeFirst p type bs)
        (StageShader.retypeFirst q type cs) := by
    induction h with
    | nil => exact .nil
    | @cons b c _ _ hbc hrest ih =>
      have hsame := L.graphs.pinsApart _ _ _ _ hbc.1 hpin
      unfold StageShader.retypeFirst
      by_cases hb : b.1 = p
      · rw [if_pos hb, if_pos (hsame.mp hb)]
        have hvalue : L.Value { b.2 with type } { c.2 with type } :=
          ⟨rfl, fun htexture ↦ by simp [htype] at htexture, hbc.2.exact⟩
        exact .cons ⟨hpin, hvalue⟩ hrest
      · rw [if_neg hb, if_neg fun hc ↦ hb (hsame.mpr hc)]
        exact .cons hbc ih
  exact { h with bindings := hfirst h.bindings }

/-- Corresponding pins are bound in both stages or in none. -/
theorem binding? (h : L.SimilarShader s t) (hpin : L.matching.pin p q) :
    Option.Rel L.Value (s.binding? p) (t.binding? q) := by
  have hscoped := lookup_related L.graphs.pinsApart h.bindings hpin
  have houter := lookup_related L.graphs.pinsApart h.outer hpin
  unfold StageShader.binding?
  generalize s.bindings.lookup p = x at hscoped ⊢
  generalize t.bindings.lookup q = y at hscoped ⊢
  cases hscoped with
  | none => exact houter
  | some hv => exact .some hv

end SimilarShader

/-! ## States -/

namespace Related

variable {s t : EmitState}

theorem modifyShader (h : L.Related running s t) (stage : ShaderStage)
    {f g : StageShader → StageShader}
    (hfg : L.SimilarShader (s.shader stage) (t.shader stage) →
      L.SimilarShader (f (s.shader stage)) (g (t.shader stage))) :
    L.Related running (s.modifyShader stage f) (t.modifyShader stage g) where
  stage := by simp [h.stage]
  shader other := by
    by_cases hstage : other = stage
    · subst hstage
      simpa using hfg (h.shader other)
    · rw [EmitState.shader_modifyShader_of_ne _ _ hstage,
        EmitState.shader_modifyShader_of_ne _ _ hstage]
      exact h.shader other
  nextVariable := by simp [h.nextVariable]
  uniforms := by simpa using h.uniforms
  samplers := by simpa using h.samplers
  interpolators := by simp [h.interpolators]
  renderState := by simp [h.renderState]
  requirements := by simp [h.requirements]
  inProgress := by simpa using h.inProgress
  running htracked := by simp [h.running htracked]

theorem enter (h : L.Related running s t) (stage : ShaderStage) :
    L.Related running { s with stage } { t with stage } :=
  { h with stage := rfl, shader := h.shader }

theorem binding? (h : L.Related running s t) {p q : PinId} (hpin : L.matching.pin p q) :
    Option.Rel L.Value (s.binding? p) (t.binding? q) := by
  unfold EmitState.binding?
  rw [h.stage]
  exact (h.shader s.stage).binding? hpin

end Related

/-- A feature that the first dialect has is one of the second dialect as well. -/
theorem feature_cases (L : Lock) {α : Type} {x y : Option α} (hsome : x.isSome → y.isSome)
    (hexact : L.exact → y = x) :
    (∃ a b, x = some a ∧ y = some b ∧ (L.exact → b = a)) ∨ (x = none ∧ (L.exact → y = none)) := by
  cases x with
  | none => exact .inr ⟨rfl, hexact⟩
  | some a =>
    obtain ⟨b, rfl⟩ := Option.isSome_iff_exists.mp (hsome rfl)
    exact .inl ⟨a, b, rfl, rfl, fun h ↦ Option.some.inj (hexact h)⟩

namespace Lockstep

variable {n m : Node} {v w : Variable} {e e' : String}

/-! ## Reading and writing -/

theorem currentStage : L.Lockstep running Eq EmitM.currentStage EmitM.currentStage :=
  .bind .get fun _ _ hst ↦ .pure hst.stage.symm

theorem enter (stage : ShaderStage) :
    L.Lockstep running Eq (EmitM.enter stage) (EmitM.enter stage) :=
  .modify fun _ _ hst ↦ hst.enter stage

theorem modifyStage (stage : ShaderStage) {f g : StageShader → StageShader}
    (hfg : ∀ s t, L.SimilarShader s t → L.SimilarShader (f s) (g t)) :
    L.Lockstep running Eq (EmitM.modifyStage stage f) (EmitM.modifyStage stage g) :=
  .modify fun _ _ hst ↦ hst.modifyShader stage (hfg _ _)

theorem modifyShader {f g : StageShader → StageShader}
    (hfg : ∀ s t, L.SimilarShader s t → L.SimilarShader (f s) (g t)) :
    L.Lockstep running Eq (EmitM.modifyShader f) (EmitM.modifyShader g) :=
  .modify fun _ _ hst ↦ by
    rw [hst.stage]
    exact hst.modifyShader _ (hfg _ _)

theorem modifyBody {f g : CodeBuffer → CodeBuffer}
    (hfg : L.exact → ∀ b c, b.Agrees L.agree c → (f b).Agrees L.agree (g c)) :
    L.Lockstep running Eq (EmitM.modifyBody f) (EmitM.modifyBody g) :=
  .modifyShader fun _ _ h ↦ h.modifyBody hfg

theorem writeLine (h : L.Text e e') :
    L.Lockstep running Eq (EmitM.writeLine e) (EmitM.writeLine e') :=
  .modifyBody fun hexact b c hbc ↦ by
    rw [h hexact]
    exact hbc.line e

theorem lookup {p q : PinId} (hpin : L.matching.pin p q) :
    L.Lockstep running (Option.Rel L.Value) (EmitM.lookup p) (EmitM.lookup q) :=
  .bind .get fun _ _ hst ↦ .pure (hst.binding? hpin)

theorem require (f : Requirements → Requirements) :
    L.Lockstep running Eq (EmitM.require f) (EmitM.require f) :=
  .modify fun _ _ hst ↦
    { hst with shader := hst.shader, requirements := congrArg f hst.requirements }

theorem freshName : L.Lockstep running Eq EmitM.freshName EmitM.freshName :=
  .bind .get fun s t hst ↦ by
    refine .seq (.set
      { hst with shader := hst.shader, nextVariable := congrArg (· + 1) hst.nextVariable })
      (.pure ?_)
    rw [hst.nextVariable]

theorem allocateInterpolator :
    L.Lockstep running Eq EmitM.allocateInterpolator EmitM.allocateInterpolator :=
  .bind .get fun _ _ hst ↦ .seq (.set
    { hst with shader := hst.shader, interpolators := congrArg (· + 1) hst.interpolators })
    (.pure hst.interpolators.symm)

theorem setRenderState (state : RenderState) :
    L.Lockstep running Eq (EmitM.setRenderState state) (EmitM.setRenderState state) :=
  .bind .get fun s t hst ↦ by
    rw [hst.renderState]
    exact .guard (fun _ ↦ rfl) fun _ ↦ .modify fun s t hst ↦
      { hst with shader := hst.shader, renderState := rfl }

/-! ## Types -/

theorem typeName (hn : L.Twin n m) (t : ValueType) :
    L.Lockstep running L.Text (EmitM.typeName n t) (EmitM.typeName m t) := by
  refine .dialect_bind ?_
  cases t
  case void => exact .throw fun h ↦ by rw [hn.same h]
  all_goals exact .pure fun h ↦ by rw [L.dialect_eq h]

theorem assign (hn : L.Twin n m) (hv : L.Value v w) (h : L.Text e e') :
    L.Lockstep running Eq (EmitM.assign n v e) (EmitM.assign m w e') := by
  unfold EmitM.assign
  rw [hv.type]
  refine .bind (typeName hn v.type) fun type type' htype ↦ .writeLine fun hexact ↦ ?_
  rw [htype hexact, hv.exact hexact, h hexact]

theorem cast (hn : L.Twin n m) (hv : L.Value v w) (t : ValueType) :
    L.Lockstep running L.Text (EmitM.cast n v t) (EmitM.cast m w t) := by
  refine .dialect_bind ?_
  have hexact (h : L.exact) : w.cast t L.right.dialect = v.cast t L.left.dialect := by
    rw [hv.eq h, L.dialect_eq h]
  have hok := Variable.isOk_cast hv.type t L.left.dialect L.right.dialect
  generalize v.cast t L.left.dialect = x at hexact hok
  generalize w.cast t L.right.dialect = y at hexact hok
  cases x with
  | ok e =>
    cases y with
    | ok e' => exact .pure fun h ↦ Except.ok.inj (hexact h)
    | error err => cases hok
  | error err =>
    cases y with
    | ok e' => cases hok
    | error err' =>
      exact .throw fun h ↦ by rw [hn.same h, Except.error.inj (hexact (L.exact_of_strict h))]

theorem commonType (hn : L.Twin n m) {vs ws : List Variable} (h : List.Forall₂ L.Value vs ws) :
    L.Lockstep running Eq (EmitM.commonType n vs) (EmitM.commonType m ws) := by
  have htypes : ws.map Variable.type = vs.map Variable.type := by
    induction h with
    | nil => rfl
    | cons hv _ ih => rw [List.map_cons, List.map_cons, hv.type, ih]
  unfold EmitM.commonType
  rw [htypes]
  split
  · exact .pure rfl
  · exact .throw fun h ↦ by rw [hn.same h]

/-! ## Requirements of the target -/

theorem requireStage (hn : L.Twin n m) (stage : ShaderStage) :
    L.Lockstep running Eq (EmitM.requireStage stage n) (EmitM.requireStage stage m) := by
  refine .bind currentStage fun current _ h ↦ ?_
  subst h
  exact .ite (fun _ ↦ .throw fun h ↦ by rw [hn.same h]) fun _ ↦ .pure rfl

theorem unsupported (hn : L.Twin n m) {α β : Type} {Q : α → β → Prop} (feature : String) :
    L.Lockstep running Q (EmitM.unsupported n feature) (EmitM.unsupported m feature) :=
  .read_bind (.throw fun h ↦ by rw [hn.same h, L.backend (L.exact_of_strict h)])

/-- An emission that lacks a feature fails, whatever the other one does. -/
theorem lacking (hn : L.Twin n m) {α β : Type} {Q : α → β → Prop} {feature : String} {y : EmitM β}
    (h : L.exact → y = EmitM.unsupported m feature) :
    L.Lockstep running Q (EmitM.unsupported n feature) y := by
  by_cases hexact : L.exact
  · rw [h hexact]
    exact .unsupported hn feature
  · exact fun _ _ _ ↦ .error fun h ↦ absurd (L.exact_of_strict h) hexact

/-- Where the first emission is within its limits, the second one has to be as well. -/
theorem within (hn : L.Twin n m) {α β : Type} {Q : α → β → Prop} {feature : String} {c c' : Prop}
    [Decidable c] [Decidable c'] {f : PUnit → EmitM α} {x : EmitM α} {g : PUnit → EmitM β}
    {y : EmitM β} (h : c' → c) (hexact : L.exact → (c ↔ c')) (hxy : L.Lockstep running Q x y) :
    L.Lockstep running Q (if c then EmitM.unsupported n feature >>= f else x)
      (if c' then EmitM.unsupported m feature >>= g else y) := by
  by_cases hc : c
  · rw [if_pos hc]
    by_cases hc' : c'
    · rw [if_pos hc']
      exact .bind (Q := fun _ _ ↦ False) (.unsupported hn feature) fun _ _ h ↦ h.elim
    · exact fun _ _ _ ↦ .error fun h ↦ absurd ((hexact (L.exact_of_strict h)).mp hc) hc'
  · rwa [if_neg hc, if_neg fun hc' ↦ hc (h hc')]

/-- Attributes that are read off the settings and the stage. -/
theorem of_reads {x : EmitM (Option String)} (f : Settings → ShaderStage → Option String)
    (h : ∀ env s, (x.run env).run.run s = (.ok (f env.settings s.stage), s))
    (hf : ∀ stage, L.Attribute (f L.left.settings stage) (f L.right.settings stage)) :
    L.Lockstep running L.Attribute x x := by
  intro s t hst
  rw [h, h, hst.stage]
  exact .ok (hf s.stage) hst

theorem unrollAttribute :
    L.Lockstep running L.Attribute EmitM.unrollAttribute EmitM.unrollAttribute := by
  -- Without a setting only the loops of pixel shaders are unrolled.
  refine .of_reads (fun settings stage ↦
    settings.unrollLoops?.elim
      (if stage = .pixel then settings.backend.dialect.unrollAttribute? else none) fun unroll ↦
      if unroll then settings.backend.dialect.unrollAttribute? else none) (fun env s ↦ ?_)
    fun stage hexact ↦ ?_
  · obtain ⟨graph, settings⟩ := env
    obtain ⟨backend, version, precision, unroll, comments⟩ := settings
    rcases unroll with _ | _ | _ <;> rfl
  · have hsome (unroll? : Option Bool) : ∀ a ∈ unroll?.elim
        (if stage = .pixel then L.left.settings.backend.dialect.unrollAttribute? else none)
        (fun unroll ↦ if unroll then L.left.settings.backend.dialect.unrollAttribute? else none),
        a ∈ L.left.dialect.unrollAttribute? := by
      intro a ha
      cases unroll? <;> simp only [Option.elim] at ha <;> split at ha <;> first | exact ha | cases ha
    rw [L.backend hexact]
    obtain hsame | hskips := L.unrolls hexact
    · rw [hsame]
      exact .inl rfl
    · exact .inr ⟨fun a ha ↦ hskips a (hsome _ a ha), fun b hb ↦ hskips b (hsome _ b hb)⟩

theorem branchAttribute (hint : BranchHint) :
    L.Lockstep running L.Attribute (EmitM.branchAttribute hint) (EmitM.branchAttribute hint) := by
  cases hint with
  | auto => exact .of_reads (fun _ _ ↦ none) (fun _ _ ↦ rfl) fun _ _ ↦ .inl rfl
  | static =>
    exact .of_reads (fun settings _ ↦ settings.backend.dialect.flattenAttribute?) (fun _ _ ↦ rfl)
      fun _ hexact ↦ .inl (by rw [L.backend hexact])
  | dynamic =>
    exact .of_reads (fun settings _ ↦ settings.backend.dialect.branchAttribute?) (fun _ _ ↦ rfl)
      fun _ hexact ↦ .inl (by rw [L.backend hexact])

/-! ## Outputs -/

variable (hn : L.Twin n m)

include hn

theorem outputPin (pin : String) :
    L.Lockstep running L.matching.pin (EmitM.outputPin n pin) (EmitM.outputPin m pin) := by
  unfold EmitM.outputPin
  have hpins := hn.output? pin
  generalize n.output? pin = p? at hpins ⊢
  generalize m.output? pin = q? at hpins ⊢
  cases hpins with
  | some hpq => exact .pure hpq.id
  | none => exact .throw fun h ↦ by rw [hn.same h]

theorem bindOutput (pin : String) (hv : L.Value v w) :
    L.Lockstep running L.Value (EmitM.bindOutput n pin v) (EmitM.bindOutput m pin w) :=
  .bind (outputPin hn pin) fun _ _ hpin ↦
    .seq (.modifyShader fun _ _ h ↦ h.bind hpin hv) (.pure hv)

theorem emitOutput (pin : String) (t : ValueType) :
    L.Lockstep running L.Value (EmitM.emitOutput n pin t) (EmitM.emitOutput m pin t) :=
  .bind freshName fun _ _ hname ↦ .bindOutput hn pin (by rw [hname]; exact .refl _)

theorem bindOuter (stage : ShaderStage) (pin : String) (hv : L.Value v w) :
    L.Lockstep running Eq (EmitM.bindOuter stage n pin v) (EmitM.bindOuter stage m pin w) :=
  .bind (outputPin hn pin) fun _ _ hpin ↦ .modifyStage stage fun _ _ h ↦ h.bindOuter hpin hv

theorem retypeOutput (pin : String) {t : ValueType} (ht : t.isNumeric) :
    L.Lockstep running Eq (EmitM.retypeOutput n pin t) (EmitM.retypeOutput m pin t) := by
  have htexture : t.isTexture = false := by
    cases t <;> simp_all [ValueType.isNumeric, ValueType.isVector, ValueType.isTexture]
  exact .bind (outputPin hn pin) fun _ _ hpin ↦ .modifyShader fun _ _ h ↦ h.retype hpin t htexture

end Lockstep

end Lock

end ShaderGraph
