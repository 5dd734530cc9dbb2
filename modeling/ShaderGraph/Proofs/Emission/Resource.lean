import ShaderGraph.Emission.Resource
import ShaderGraph.Emission.Script
import ShaderGraph.Proofs.Emission.Inputs
import ShaderGraph.Proofs.Text.Filling

/-!
# Steps of the emitters of parameters, samplers and scripts
-/

namespace ShaderGraph

namespace Emitter

open EmitM

variable {env : EmitEnv} {demand : Demand} {n : Node} {s t : EmitState}

theorem uniform_runs {parameter : String} {type : ValueType} (hkind : n.kind = .uniform parameter type)
    (h : Returns env (uniform n parameter type) s () t) :
    RunsReading env demand n [] s t := by
  simp only [uniform] at h
  split at h
  · simp only [returns_bind] at h
    obtain ⟨_, _, h, -⟩ := h
    exact absurd h returns_throw
  · next htype =>
    simp only [returns_bind] at h
    obtain ⟨⟨⟩, s₁, hdeclare, h⟩ := h
    have hname : parameter ∈ n.kind.parameterNames := by simp [hkind, NodeKind.parameterNames]
    exact ⟨_, .snoc (.single (.uniform (.inl ⟨hname, htype⟩) hdeclare fun _ ↦ hkind))
      (step_forwardOutput h (by simp) fun _ ↦ by rw [hkind]; rfl), by simp⟩

/-- The pins that an array reads: its index, unless that is a constant. -/
def indexPins (g : Graph) (n : Node) : List String :=
  if (constantIndex? g n).isSome then [] else ["Index"]

theorem steps_subscript {parameter place : String} {length : UInt32} {H : Held}
    (h : Returns env (subscript demand n parameter length) s place t) :
    ∃ K, Steps env demand n H s K t ∧ K.Forms place ∧ indexPins env.graph n ⊆ K.pins := by
  simp only [subscript, returns_bind, returns_read] at h
  obtain ⟨env', s₁, ⟨rfl, rfl⟩, h⟩ := h
  unfold indexPins
  split at h
  · next index hindex =>
    simp only [returns_ite, returns_pure, returns_throw, and_false, or_false] at h
    obtain ⟨-, rfl, rfl⟩ := h
    exact ⟨H, .refl, .fixed (phrase_toString_nat _), by simp [hindex]⟩
  · simp only [returns_bind, returns_pure] at h
    obtain ⟨index, s₂, hindex, rfl, rfl⟩ := h
    obtain ⟨v, hsteps⟩ := steps_scalarOperand (H := H) hindex
    refine ⟨_, hsteps, ?_, by split <;> simp⟩
    exact .before (.after (m := "int(") (by decide) (Held.forms_operand (t := .scalar) (by simp)))
      trailing_paren

theorem indexedUniform_runs {parameter : String} {type : ValueType} {length : UInt32}
    (hname : parameter ∈ n.kind.parameterNames)
    (h : Returns env (indexedUniform demand n parameter type length) s () t) :
    RunsReading env demand n (indexPins env.graph n) s t := by
  simp only [indexedUniform] at h
  by_cases hnumeric : type.isNumeric
  · have htype : type ≠ .void := by
      rintro rfl
      cases hnumeric
    by_cases hlength : length = 0
    · simp [hnumeric, hlength, returns_bind, returns_throw] at h
    · simp only [hnumeric, Bool.not_true, Bool.false_eq_true, hlength, if_false, returns_bind] at h
      obtain ⟨⟨⟩, s₁, hdeclare, place, s₂, hplace, h⟩ := h
      obtain ⟨K, hsteps, hform, hpins⟩ := steps_subscript
        (H := ({} : Held).addParameter ⟨parameter, type⟩) hplace
      have hdeclared : Step env demand n {} s (({} : Held).addParameter ⟨parameter, type⟩) s₁ :=
        .uniform (.inl ⟨hname, htype⟩) hdeclare fun htexture ↦ by
          simp [ValueType.isTexture_of_isNumeric hnumeric] at htexture
      refine ⟨K, ((Steps.single hdeclared).trans hsteps).snoc
        (step_assignOutput h hnumeric (.inl ?_)), hpins⟩
      exact .element (v := ⟨parameter, type⟩) (hsteps.le.values (by simp))
        (hsteps.le.parameters (by simp)) hform
  · simp [hnumeric, returns_bind, returns_throw] at h

/-- The operators of a template stand at the coordinate, and are defined for its type. -/
def SelectsFrom (template : String) (coordinate : ValueType) : Prop :=
  (∀ name ∈ ["texture", "sampler", "bias"], Template.operators template name = []) ∧
    ∀ op ∈ Template.operators template "coord", op.IsDefinedFor coordinate

instance (template : String) (coordinate : ValueType) : Decidable (SelectsFrom template coordinate) :=
  inferInstanceAs (Decidable (_ ∧ _))

section Templates

open Template

theorem operators_ofList (cs : List Char) (name : String) :
    operators (String.ofList cs) name =
      (occurrences ('\x7b' :: (name.toList ++ ['\x7d'])) none cs).flatMap fun p ↦
        operatorsAround p.1 p.2 := by
  rw [operators, String.toList_ofList, toList_placeholder]

theorem SelectsFrom.of_plain {template : String} (coordinate : ValueType)
    (h : ∀ name ∈ ["texture", "sampler", "coord", "bias"], operators template name = []) :
    SelectsFrom template coordinate := by
  refine ⟨fun name hname ↦ h name ?_, fun op hop ↦ ?_⟩
  · revert hname
    simp only [List.mem_cons]
    tauto
  · simp [h "coord" (by simp)] at hop

/-- Nothing but the comparisons by methods selects components. -/
theorem operators_samplePatterns :
    ∀ p ∈ ["texture", "texture2D", "textureCube"].flatMap calls ++ methods,
      ∀ name ∈ ["texture", "sampler", "coord", "bias"],
        operators (String.ofList (render p.pieces)) name = [] := by
  simp only [operators_ofList]
  decide +kernel

theorem selectsFrom_samplePatterns {b : Backend} {t : ValueType} {p : Pattern}
    (hp : p ∈ samplePatterns b t) (coordinate : ValueType) :
    SelectsFrom (String.ofList (render p.pieces)) coordinate := by
  refine .of_plain coordinate (operators_samplePatterns p ?_)
  revert hp
  unfold samplePatterns
  split <;> simp +contextual

theorem selectsFrom_comparePatterns {b : Backend} {t : ValueType} {p : Pattern}
    (hp : p ∈ comparePatterns b t) : SelectsFrom (String.ofList (render p.pieces)) t := by
  have hmethods : ∀ t ∈ [ValueType.vec3, .vec4], ∀ p ∈ comparePatterns .hlsl t,
      SelectsFrom (String.ofList (render p.pieces)) t := by
    simp only [SelectsFrom, operators_ofList]
    decide +kernel
  unfold comparePatterns at hp
  split at hp
  · exact hmethods _ (by simp) p hp
  · exact hmethods _ (by simp) p hp
  · cases hp
  · exact selectsFrom_samplePatterns (b := .glsl) (t := t) hp t

theorem selectsFrom_templates {b : Backend} {type : ValueType} {templates : SampleTemplates}
    (h : b.dialect.sampleTemplates? type = some templates) :
    (∀ template ∈ templates.sample :: (templates.sampleBias?.toList ++ templates.sampleLod?.toList),
      SelectsFrom template templates.coordinate) ∧
    ∀ c ∈ templates.sampleCompare?, SelectsFrom c.template c.coordinate := by
  refine ⟨fun template htemplate ↦ ?_, fun c hc ↦ ?_⟩
  · obtain ⟨p, hp, rfl⟩ := exists_samplePattern h template htemplate
    exact selectsFrom_samplePatterns hp _
  · obtain ⟨p, hp, htext⟩ := exists_comparePattern h c hc
    rw [htext]
    exact selectsFrom_comparePatterns hp

end Templates

/-- A sampling that was chosen fills one of the templates. -/
theorem returns_sampling {type : ValueType} {templates : SampleTemplates} {state : SamplerState}
    {r : Sampling} (htemplates : env.dialect.sampleTemplates? type = some templates)
    (h : Returns env (sampling n templates state) s r t) :
    t = s ∧ r.result.isNumeric ∧ templates.IsSamplerType r.samplerType ∧
      env.dialect.IsTemplate r.template ["texture", "sampler", "coord", "bias"] ∧
      SelectsFrom r.template r.coordinate := by
  obtain ⟨hplain, hcompare⟩ := selectsFrom_templates (b := env.settings.backend) htemplates
  simp only [sampling] at h
  split at h
  · split at h
    · next c hc =>
      obtain ⟨rfl, rfl⟩ := returns_pure.mp h
      exact ⟨rfl, rfl, .inr (by simp [hc]), .sample htemplates (.inr (.inr (.inr (by simp [hc])))),
        hcompare c hc⟩
    · exact absurd h returns_unsupported
  · simp only [returns_bind, returns_currentStage] at h
    obtain ⟨stage, s₁, ⟨rfl, rfl⟩, h⟩ := h
    split at h
    · next template htemplate =>
      obtain ⟨rfl, rfl⟩ := returns_pure.mp h
      have hoptions : templates.sampleLod? = some template ∨ templates.sampleBias? = some template ∨
          template = templates.sample := by
        split at htemplate
        · exact .inl htemplate
        · split at htemplate
          · exact .inr (.inl htemplate)
          · exact .inr (.inr (Option.some.inj htemplate).symm)
      refine ⟨rfl, rfl, .inl rfl, .sample htemplates (by tauto), hplain template ?_⟩
      rcases hoptions with h | h | h <;> simp [h]
    · exact absurd h returns_unsupported

theorem sampler_runs {state : SamplerState} (hkind : n.kind = .sampler state)
    (h : Returns env (sampler demand n state) s () t) :
    RunsReading env demand n ["Texture", "TexCoord"] s t := by
  simp only [sampler, returns_bind, returns_dialect] at h
  obtain ⟨texture, s₁, hinput, d, s₂, ⟨rfl, rfl⟩, h⟩ := h
  obtain ⟨hread, htexture⟩ := step_textureInput hinput
  split at h
  · next templates htemplates =>
    simp only [returns_bind, returns_cast] at h
    obtain ⟨r, s₃, hsampling, place, s₄, hplace, coord, s₅, ⟨hcoord, rfl⟩, name, s₆, hname,
      hassign⟩ := h
    obtain ⟨rfl, hnumeric, htype, htemplate, hothers, hcoordinate⟩ :=
      returns_sampling htemplates hsampling
    refine ⟨_, .snoc (.snoc (.snoc (.snoc (.single hread) (step_requireInput hplace))
      (.convert (v := place) (by simp) hcoord))
      (.sampler hkind (show texture ∈ _ by simp) htexture htemplates htype hname))
      (step_assignOutput hassign hnumeric (.inr ⟨_, [("texture", texture.name), ("sampler", name),
        ("coord", coord), ("bias", state.mipBias.literal)], htemplate, fun x hx ↦ ?_,
          fun x hx op hop ↦ ?_, rfl⟩)), by simp⟩
    · simp only [List.mem_cons, List.not_mem_nil, or_false] at hx
      obtain rfl | rfl | rfl | rfl := hx
      · exact Held.forms_value (by simp)
      · exact Held.forms_name (by simp)
      · exact Held.forms_operand (t := r.coordinate) (by simp)
      · exact .fixed state.mipBias.phrase_literal
    · simp only [List.mem_cons, List.not_mem_nil, or_false] at hx
      obtain rfl | rfl | rfl | rfl := hx
      case inr.inr.inl =>
        exact ⟨⟨coord, r.coordinate⟩, .inr (by simp), rfl, hcoordinate op hop⟩
      all_goals
        rw [hothers _ (by simp)] at hop
        cases hop
  · exact absurd h returns_unsupported

theorem textureSize_runs (h : Returns env (textureSize demand n) s () t) :
    RunsReading env demand n ["Input"] s t := by
  simp only [textureSize, returns_bind, returns_dialect] at h
  obtain ⟨texture, s₁, hread, d, s₂, ⟨rfl, rfl⟩, ⟨⟩, s₃, hdeclare, h⟩ := h
  obtain ⟨hread, htexture⟩ := step_textureInput hread
  exact ⟨_, .snoc (.snoc (.single hread)
    (.uniform (.inr (.inr ⟨rfl, texture, by simp, htexture, rfl⟩)) hdeclare fun h ↦ by cases h))
    (step_forwardOutput h (by simp) fun h ↦ by cases h), by simp⟩

/-! ## Scripts -/

theorem returns_scriptPinType {pin : ScriptPin} {name : String}
    (h : Returns env (scriptPinType n pin) s name t) :
    t = s ∧ pin.type.isNumeric ∧ env.dialect.typeName? pin.type = some name := by
  simp only [scriptPinType] at h
  split at h
  · simp only [returns_bind] at h
    obtain ⟨_, _, h, -⟩ := h
    exact absurd h returns_unsupported
  · next htexture =>
    obtain ⟨hname, rfl⟩ := returns_typeName.mp h
    refine ⟨rfl, ?_, hname⟩
    generalize pin.type = type at htexture hname
    cases type <;> first | rfl | cases hname; done | exact absurd rfl htexture

/-- A signature is put together without a change to the state, and its pins have numeric types. -/
theorem returns_scriptSignature {name signature : String} {inputs outputs : List ScriptPin}
    (h : Returns env (scriptSignature n name inputs outputs) s signature t) :
    signature = env.dialect.signature name inputs outputs ∧ t = s ∧
      ∀ pin ∈ outputs, pin.type.isNumeric := by
  have hpins (isOutput : Bool) {f : ScriptPin → String → String} {pins : List ScriptPin}
      {texts : List String} {s t : EmitState}
      (hf : ∀ pin type, env.dialect.typeName? pin.type = some type →
        f pin type = env.dialect.parameter isOutput pin)
      (h : Returns env (pins.mapM fun pin ↦ do return f pin (← scriptPinType n pin)) s texts t) :
      texts = pins.map (env.dialect.parameter isOutput) ∧ t = s ∧ ∀ pin ∈ pins, pin.type.isNumeric := by
    induction pins generalizing s texts with
    | nil =>
      obtain ⟨rfl, rfl⟩ := returns_mapM_nil.mp h
      exact ⟨rfl, rfl, by simp⟩
    | cons pin pins ih =>
      obtain ⟨text, s', texts', hpin, hrest, rfl⟩ := returns_mapM_cons.mp h
      simp only [returns_bind, returns_pure] at hpin
      obtain ⟨type, s'', hpin, rfl, rfl⟩ := hpin
      obtain ⟨rfl, hnumeric, htype⟩ := returns_scriptPinType hpin
      obtain ⟨rfl, rfl, hnumerics⟩ := ih hrest
      exact ⟨by rw [hf pin type htype, List.map_cons], rfl, by simpa using ⟨hnumeric, hnumerics⟩⟩
  simp only [scriptSignature, returns_bind, returns_pure] at h
  obtain ⟨ins, s₁, hins, outs, s₂, houts, rfl, rfl⟩ := h
  obtain ⟨rfl, rfl, -⟩ := hpins false (f := fun pin type ↦ s!"{type} {pin.name}")
    (fun pin type htype ↦ by
      rw [Dialect.parameter, Dialect.typeNameOrVoid, htype]
      simp) hins
  obtain ⟨rfl, rfl, hnumeric⟩ := hpins true (f := fun pin type ↦ s!"out {type} {pin.name}")
    (fun pin type htype ↦ by
      rw [Dialect.parameter, Dialect.typeNameOrVoid, htype]
      simp) houts
  exact ⟨rfl, rfl, hnumeric⟩

theorem steps_scriptArgument {pin : ScriptPin} {text : String} {H : Held}
    (h : Returns env (scriptArgument demand n pin) s text t) :
    ∃ K, Steps env demand n H s K t ∧ pin.name ∈ K.pins ∧ K.Forms text := by
  simp only [scriptArgument, returns_bind, returns_cast] at h
  obtain ⟨value, s₁, hvalue, hcast, rfl⟩ := h
  exact ⟨_, .snoc (.single (step_requireInput hvalue)) (.convert (v := value) (by simp) hcast),
    by simp, Held.forms_operand (t := pin.type) (by simp)⟩

theorem steps_scriptResult {pin : ScriptPin} {text : String} {H : Held}
    (hnumeric : pin.type.isNumeric) (h : Returns env (scriptResult n pin) s text t) :
    ∃ K, Steps env demand n H s K t ∧ K.Forms text := by
  simp only [scriptResult, returns_bind, returns_emitOutput, returns_typeName, returns_writeLine,
    returns_pure] at h
  obtain ⟨output, s₁, ⟨p, hp, rfl, rfl⟩, name, s₂, ⟨hname, rfl⟩, ⟨⟩, s₃, rfl, rfl, rfl⟩ := h
  exact ⟨_, .single (.declare hp hnumeric hname), Held.forms_name (by simp)⟩

theorem script_runs {name body : String} {inputs outputs : List ScriptPin}
    (hkind : n.kind = .script name body inputs outputs)
    (h : Returns env (script demand n name body inputs outputs) s () t) :
    RunsReading env demand n (inputs.map ScriptPin.name) s t := by
  simp only [script, returns_bind, returns_writeLine] at h
  obtain ⟨signature, s₁, hsignature, ⟨⟩, s₂, hdefine, ins, s₃, hins, outs, s₄, houts, rfl⟩ := h
  obtain ⟨htext, rfl, hnumeric⟩ := returns_scriptSignature hsignature
  have hscript : Steps env demand n {} s₁ (({} : Held).addName name) s₂ :=
    .single (.script (by simp [hkind, NodeKind.userNames]) hdefine
      ⟨inputs, outputs, hkind, htext⟩)
  obtain ⟨H, hread, hargs⟩ := steps_mapM demand n (({} : Held).addName name)
    (G := fun L pin text ↦ ScriptPin.name pin ∈ L.pins ∧ L.Forms text)
    (fun pin _ K s text t _ hpin ↦ steps_scriptArgument hpin)
    (fun K L _ _ hle hgoal ↦ ⟨hle.pins hgoal.1, hgoal.2.mono hle⟩) hins
  obtain ⟨K, hresults, hresult⟩ := steps_mapM demand n H
    (G := fun L _ text ↦ L.Forms text)
    (fun pin hpin K s text t _ hpin' ↦ steps_scriptResult (hnumeric pin hpin) hpin')
    (fun K L _ _ hle hgoal ↦ hgoal.mono hle) houts
  refine ⟨K, ((hscript.trans hread).trans hresults).snoc (.statement
    ⟨name ++ "(" ++ ", ".intercalate (ins ++ outs), ");", ?_, ?_, by decide, by decide⟩
    ⟨name ++ "(" ++ ", ".intercalate (ins ++ outs) ++ ")", ?_⟩), ?_⟩
  · rfl
  · have hle := hread.le.trans hresults.le
    refine .between (Held.forms_name (hle.names (by simp))) inner_paren (.list fun text htext ↦ ?_)
    rcases List.mem_append.mp htext with htext | htext
    · obtain ⟨pin, -, -, hform⟩ := exists_of_mem_right hargs htext
      exact hform.mono hresults.le
    · obtain ⟨pin, -, hform⟩ := exists_of_mem_right hresult htext
      exact hform
  · have hend : ");" = ")" ++ ";" := by decide
    simp only [toString_text, hend, String.append_assoc]
  · intro pin hpin
    obtain ⟨p, hp, rfl⟩ := List.mem_map.mp hpin
    obtain ⟨text, -, hmem, -⟩ := exists_of_mem_left hargs hp
    exact hresults.le.pins hmem

end Emitter

end ShaderGraph
