import ShaderGraph.Proofs.Scope.Loops

/-!
# Steps in scope

Every step of an emitter whose demands write scoped code writes scoped code itself, and what the
emitter has at hand stays in scope. The names that the author of the graph gives are taken to be plain
words.
-/

namespace ShaderGraph

open EmitM Emitter

/-! ## Values carried over to the pixel stage -/

theorem quiet_inputReference (d : Dialect) {name : String} (hname : IsPlainWord name) :
    Quiet [] (d.inputReference name) := by
  have hphrase : Phrase (fun a ↦ a = "i" ∨ a = name) (d.inputReference name) := by
    unfold Dialect.inputReference
    split
    · exact .atom (.inr rfl)
    · exact .select (x := "i") (.atom (.inl rfl)) (.atom (.inr rfl))
  refine hphrase.quiet ?_
  rintro _ (rfl | rfl)
  · decide
  · exact (hname.among []).quiet

theorem isPlainWord_interpolatorName (slot : Nat) : IsPlainWord (interpolatorName slot) :=
  ⟨isWord_interpolatorName slot, isTemporary_interpolatorName slot⟩

section Carry

variable {T : PinId → Prop} {types : List String} {Γ locals declared : Visible} {k m : Nat}
  {s t : EmitState} {d : Dialect} {pin : PinId} {v : Variable}

theorem carry_vertex : (t.carry d pin v).vertex =
    (t.vertex.modifyBlock .outputs fun b ↦
      b.line (d.interpolatorDeclarations v.type (interpolatorName t.interpolators)
        t.interpolators).1).modifyBody fun b ↦
          b.line s!"{d.outputReference (interpolatorName t.interpolators)} = {v.name};" :=
  rfl

/-- The value is written to its slot at the end of the vertex stage. -/
theorem carry_extends (hs : s.Sound T Γ) (hpixel : s.stage = .pixel)
    (h : EmitState.Growth types Γ { s with stage := .vertex } t locals declared [] [] k m)
    (ht : t.Sound T fun stage ↦ locals stage ++ Γ stage)
    (hv : Quiet (locals .vertex ++ Γ .vertex) v.name) (hvector : v.type.isVector) :
    EmitState.Extends T types Γ (fun stage ↦ locals stage ++ Γ stage) s (t.carry d pin v) := by
  obtain rfl : m = 0 := h.vertex rfl
  have hvertex := ht.shaders .vertex
  have hpixels := ht.shaders .pixel
  have hblock := StageShader.SameCode.modifyBlock t.vertex .outputs fun b ↦
    b.line (d.interpolatorDeclarations v.type (interpolatorName t.interpolators) t.interpolators).1
  have hinputs := StageShader.SameCode.modifyBlock t.pixel .inputs fun b ↦
    b.line (d.interpolatorDeclarations v.type (interpolatorName t.interpolators) t.interpolators).2
  have hline : ∀ b : CodeBuffer, EndsApart b.text → b.Grows
      (b.line s!"{d.outputReference (interpolatorName t.interpolators)} = {v.name};")
      (tokens s!"{d.outputReference (interpolatorName t.interpolators)} = {v.name};") :=
    fun b hb ↦ by simpa using (CodeBuffer.Grows.refl hb).line _
  have hsame : StageShader.Grows types (locals .vertex ++ Γ .vertex) _ _ [] [] [] :=
    .of_sameCode hvertex hblock
  have hwritten := hsame.trans
    (.modifyBody (hblock.sound hvertex).endsApart hline (code_slot d t.interpolators hv))
  have hgrowth : EmitState.Growth types Γ s (t.carry d pin v) locals declared [] [] k 1 :=
    { stage := hpixel.symm
      nextVariable := h.nextVariable
      interpolators := congrArg (· + 1) h.interpolators
      vertex := fun hstage ↦ by
        rw [hpixel] at hstage
        cases hstage
      shaders := fun stage ↦ by
        cases stage with
        | vertex =>
          have hslot : t.interpolators = s.interpolators := h.interpolators
          have hall := (h.shaders .vertex).trans hwritten
          rw [hslot] at hall
          simpa [EmitState.shader, carry_vertex, hslot, EmitState.writtenSlots] using hall
        | pixel =>
          have hsame : t.pixel.Grows types (locals .pixel ++ Γ .pixel) (t.carry d pin v).pixel [] []
              [] := .of_buffers hpixels.endsApart hinputs.buffers hinputs.scopes
                (by simp [show (t.carry d pin v).pixel.bindings = _ from hinputs.bindings])
          simpa [EmitState.shader, EmitState.writtenSlots] using (h.shaders .pixel).trans hsame
      names := h.names }
  refine ⟨⟨fun stage ↦ ?_, fun _ ↦ hgrowth.captures_vertex (hs.vertex hpixel), ht.samplers⟩, _, _, _, _, rfl,
    hgrowth⟩
  cases stage with
  | vertex => exact (hblock.sound hvertex).modifyBody hline
  | pixel =>
    have hsound := hinputs.sound hpixels
    refine ⟨hsound.endsApart, hsound.bindings, fun b hb ↦ ?_, hsound.attributes⟩
    rcases List.mem_append.mp hb with hb | hb
    · exact hsound.outer b hb
    · rw [List.mem_singleton.mp hb]
      exact inScope_of_isVector
        (quiet_inputReference d (isPlainWord_interpolatorName t.interpolators)) hvector

end Carry

/-! ## Declarations -/

theorem quiet_of_isPlainWord {Γ : List String} {name : String} (h : IsPlainWord name) :
    Quiet Γ name :=
  .of_word h.1 fun htemporary ↦ by simp [h.2] at htemporary

theorem isPlainWord_prefixed {base name : String} {c : Char} {cs : List Char}
    (hbase : base.toList = c :: cs) (hword : IsWord base) (hc : c ≠ 'v') (hname : IsWord name) :
    IsPlainWord (base ++ name) := by
  have hlist : (base ++ name).toList = c :: (cs ++ name.toList) := by
    rw [String.toList_append, hbase]
    rfl
  exact ⟨isWord_append hword hname, isTemporary_of_toList hlist hc⟩

/-- The names that the compiler makes up for declarations are plain words. -/
theorem isPlainWord_reserved (b : Backend) {base name : String} (hbase : IsWord base)
    (hname : IsWord name) : IsPlainWord s!"{b.dialect.reservedPrefix}{base}{name}" := by
  simp only [toString_text, String.append_assoc]
  cases b <;>
    exact isPlainWord_prefixed (c := '_') rfl (by decide) (by decide) (isWord_append hbase hname)

theorem isPlainWord_samplerName {base : String} {c : Char} {cs : List Char}
    (hbase : base.toList = c :: cs) (hword : IsWord base) (hc : c ≠ 'v') (k : Nat) :
    IsPlainWord (samplerName base k) := by
  cases k with
  | zero => exact ⟨hword, isTemporary_of_toList hbase hc⟩
  | succ k =>
    have hunderscore : IsWord "_" := by decide
    have hplain := isPlainWord_prefixed hbase hword hc
      (isWord_append hunderscore (isPlainWord_toString (k + 1)).1)
    simpa [samplerName, String.append_assoc] using hplain

theorem isPlainWord_freshSamplerName {samplers : OrderedMap String SamplerDeclaration}
    {base : String} {c : Char} {cs : List Char} (hbase : base.toList = c :: cs)
    (hword : IsWord base) (hc : c ≠ 'v') : IsPlainWord (freshSamplerName samplers base) := by
  simp only [freshSamplerName]
  cases hfind : ((List.range (samplers.size + 1)).map (samplerName base)).find? fun name ↦
      !samplers.contains name with
  | none => exact isPlainWord_samplerName hbase hword hc 0
  | some name =>
    obtain ⟨k, -, rfl⟩ := List.mem_map.mp (List.mem_of_find?_eq_some hfind)
    simpa [hfind] using isPlainWord_samplerName hbase hword hc k

theorem quiet_of_provides {b : Backend} {r : Requirements} {stage : ShaderStage} {text : String}
    {Γ : List String} (h : b.dialect.Provides r stage text) : Quiet Γ text := by
  have hquiet : Quiet [] text := by
    cases h with
    | fragCoord => cases b <;> decide
    | frontFacing => cases b <;> decide
    | instanceId htext => cases b <;> cases htext <;> decide
  exact hquiet.mono (List.nil_subset Γ)

section Declarations

variable {env : EmitEnv} {n : Node} {s t : EmitState} {T : PinId → Prop} {Γ : Visible}
  {types : List String}

theorem isPlainWord_samplerEntry (hs : s.Sound T Γ) (b : Backend) {texture : Variable}
    (htexture : IsWord texture.name) (state : SamplerState) :
    IsPlainWord (s.samplerEntry b.dialect texture state).name := by
  unfold EmitState.samplerEntry
  split
  · next e he => exact hs.samplers e (List.mem_of_find?_eq_some he)
  · have hword : IsWord ("sampler_" ++ texture.name) := isWord_append (by decide) htexture
    simp only [toString_text, String.append_assoc]
    cases b <;> exact isPlainWord_freshSamplerName (c := '_')
      (by rw [String.toList_append]; rfl) (isWord_append (by decide) hword) (by decide)

theorem declareOnce_extends {block : Block} {name : String} {declaration? : Option String} {a : Unit}
    (h : Returns env (declareOnce block name declaration?) s a t) (hs : s.Sound T Γ) :
    EmitState.Extends T types Γ Γ s t := by
  obtain rfl := returns_declareOnce.mp h
  exact .of_sameCode hs (.declareOnce s block name declaration?)

theorem declareUniform_extends {name : String} {type : ValueType} {length? : Option UInt32} {a : Unit}
    (h : Returns env (declareUniform n name type length?) s a t) (hs : s.Sound T Γ) :
    EmitState.Extends T types Γ Γ s t := by
  obtain ⟨entry, -, rfl⟩ := returns_declareUniform.mp h
  exact .of_sameCode hs ((EmitState.SameCode.addUniform s name entry).trans (.declareOnce _ _ _ _))

theorem declareSampler_extends {texture : Variable} {state : SamplerState} {samplerType name : String}
    (h : Returns env (declareSampler texture state samplerType) s name t) (hs : s.Sound T Γ)
    (htexture : IsWord texture.name) :
    EmitState.Extends T types Γ Γ s t ∧ IsPlainWord name := by
  obtain ⟨rfl, rfl⟩ := returns_declareSampler.mp h
  have hplain := isPlainWord_samplerEntry hs env.settings.backend htexture state
  have hadd : EmitState.Extends T types Γ Γ s _ := .addSampler hs hplain
  exact ⟨hadd.trans (.of_sameCode hadd.sound (.declareOnce _ _ _ _)), hplain⟩

theorem isPlainWord_vertexAttribute (b : Backend) (usage : AttributeUsage) (index : UInt32) :
    IsPlainWord (b.dialect.vertexAttribute usage index).1 := by
  have hindex : IsWord (toString index) := (isPlainWord_toString index.toNat).1
  obtain ⟨base, hname, hword, c, cs, hbase, hc⟩ : ∃ base : String,
      (b.dialect.vertexAttribute usage index).1 = base ++ toString index ∧ IsWord base ∧
        ∃ c cs, base.toList = c :: cs ∧ c ≠ 'v' := by
    have hlabel : ∀ usage : AttributeUsage, IsWord (Labelled.label usage) ∧
        ∃ c cs, (Labelled.label usage).toList = c :: cs ∧ c ≠ 'v' := by
      intro usage
      cases usage <;> exact ⟨by decide, _, _, rfl, by decide⟩
    have hglobal : IsWord ("in_" ++ Labelled.label usage) :=
      isWord_append (by decide) (hlabel usage).1
    cases b
    · exact ⟨_, rfl, hglobal, 'i', _, by rw [String.toList_append]; rfl, by decide⟩
    · exact ⟨_, rfl, hglobal, 'i', _, by rw [String.toList_append]; rfl, by decide⟩
    · exact ⟨Labelled.label usage, rfl, hlabel usage⟩
  rw [hname]
  exact isPlainWord_prefixed hbase hword hc hindex

theorem vertexAttribute_extends {name : String} {usage : AttributeUsage} {type : ValueType}
    {index : UInt32} {v : Variable} (h : Returns env (vertexAttribute name usage type index) s v t)
    (hs : s.Sound T Γ) (hvector : type.isVector) :
    EmitState.Extends T types Γ Γ s t ∧ v.InScope [] False := by
  obtain ⟨hv, rfl⟩ | ⟨-, rfl, rfl⟩ := returns_vertexAttribute.mp h
  · obtain ⟨a, ha, rfl⟩ := mem_of_lookup hv
    exact ⟨.refl hs, (hs.shaders _).attributes a ha⟩
  · have hvalue := inScope_of_isVector (P := False) (quiet_inputReference env.dialect
      (isPlainWord_vertexAttribute env.settings.backend usage index)) hvector
    exact ⟨.addAttribute hs env.dialect name usage type index hvalue, hvalue⟩

theorem defineScript_extends {name signature body : String} {a : Unit}
    (h : Returns env (defineScript n name signature body) s a t) (hs : s.Sound T Γ) :
    EmitState.Extends T types Γ Γ s t := by
  obtain ⟨-, rfl⟩ | ⟨-, rfl⟩ := returns_defineScript.mp h
  · exact .refl hs
  · exact .of_sameCode hs (.addScript s name signature body)

end Declarations

/-! ## Steps -/

section Steps

variable {env : EmitEnv} {demand : Demand} {n : Node} {H K : Held} {s t : EmitState}
  {T : PinId → Prop} {Γ : Visible} {types base : List String}

/-- A line of code that declares a new temporary for an output. -/
theorem allocate_extends {pin : PinId} {type : ValueType} {line : String} (hs : s.Sound T Γ)
    (hnumeric : type.isNumeric)
    (hcode : Code types (Γ s.stage) (tokens line) [temporary s.nextVariable]
      [temporary s.nextVariable] []) :
    ∃ Δ, EmitState.Extends T types Γ Δ s ((s.allocate pin type).write line) ∧
      temporary s.nextVariable ∈ Δ s.stage :=
  ⟨_, .allocate hs pin type (by simp [ValueType.isTexture_of_isNumeric hnumeric]) (fun b hb ↦ by simpa using (CodeBuffer.Grows.refl hb).line line) hcode,
    by simp⟩

/-- A line of code that declares nothing. -/
theorem write_extends {line : String} (hs : s.Sound T Γ)
    (hcode : Code types (Γ s.stage) (tokens line) [] [] []) :
    EmitState.Extends T types Γ Γ s (s.write line) :=
  .modifyBody hs (fun b hb ↦ by simpa using (CodeBuffer.Grows.refl hb).line line) hcode

theorem Step.extends (hdemand : demand.IsScoped env T types base n)
    (hkeeps : n.KeepsTypes env T types)
    (hwords : ∀ name ∈ n.kind.userNames, IsWordAmong base name) (h : Step env demand n H s K t)
    (hΓ : Γ.Holds base) (hs : s.Sound T Γ)
    (hH : H.Sound (Γ s.stage) (env.graph.HoldsTexture T n)) :
    ∃ Δ, EmitState.Extends T types Γ Δ s t ∧
      K.Sound (Δ t.stage) (env.graph.HoldsTexture T n) := by
  -- What is at hand stays in scope as the code grows.
  have hkeep {Δ : Visible} {t : EmitState}
      (h : EmitState.Extends T types Γ Δ s t) :
      H.Sound (Δ t.stage) (env.graph.HoldsTexture T n) := by
    rw [h.stage]
    exact hH.mono (h.subset s.stage)
  cases h with
  | guard => exact ⟨Γ, .refl hs, hH.addStage _⟩
  | read h =>
    obtain ⟨Δ, hextends, hvalue⟩ := inputValue?_extends hdemand h hΓ hs
    exact ⟨Δ, hextends, (hkeep hextends).read fun v hv ↦
      (hvalue v hv).imp fun htexture ↦ .inr ⟨_, htexture⟩⟩
  | hoist ho h =>
    obtain ⟨Δ, hextends, -⟩ := hdemand _ (Graph.upstream_of_hoisted ho) _ _ _ h Γ hΓ hs
    exact ⟨Δ, hextends, hkeep hextends⟩
  | @convert v _ _ hv h =>
    refine ⟨Γ, .refl hs, hH.addOperand ?_⟩
    exact Variable.quiet_cast env.settings.backend h (hH.values v hv).quiet
  | define _ hnumeric hname hexpr =>
    obtain ⟨Δ, hextends, -⟩ := allocate_extends hs hnumeric (code_define (b := env.settings.backend) hname
      (hkeeps.numeric _ _ hnumeric hname) (hH.computes (b := env.settings.backend) hexpr))
    exact ⟨Δ, hextends, hkeep hextends⟩
  | constant _ hnumeric hname hliteral =>
    obtain ⟨Δ, hextends, -⟩ := allocate_extends hs hnumeric (code_constant (b := env.settings.backend) hname
      (hkeeps.numeric _ _ hnumeric hname) ((Held.Sound.empty (P := False)).forms hliteral))
    exact ⟨Δ, hextends, hkeep hextends⟩
  | declare _ hnumeric hname =>
    obtain ⟨Δ, hextends, hmem⟩ := allocate_extends hs hnumeric
      (code_declare (b := env.settings.backend) hname (hkeeps.numeric _ _ hnumeric hname))
    refine ⟨Δ, hextends, (hkeep hextends).addName (quiet_temporary ?_)⟩
    rw [hextends.stage]
    exact hmem
  | @forward _ p v hp hv htexture =>
    have hvalue : v.InScope (Γ s.stage) (T p.id) := by
      obtain hv | ⟨hvector, hform, -⟩ := hv
      · refine ⟨(hH.values v hv).quiet, fun hv' ↦ ?_⟩
        obtain ⟨hword, hholds⟩ := (hH.values v hv).texture hv'
        exact ⟨hword, hkeeps.forwarded (htexture hv') hholds p (List.mem_of_find?_eq_some hp)⟩
      · exact inScope_of_isVector (hH.forms hform) hvector
    have hextends : EmitState.Extends T types Γ Γ s (s.bindPin p.id v) :=
      .bindPin hs p.id hvalue
    exact ⟨Γ, hextends, hkeep hextends⟩
  | output htarget hexpr =>
    have hextends : EmitState.Extends T types Γ Γ s (s.write _) := write_extends hs
      (code_output (b := env.settings.backend)
        (htarget.imp And.left fun ⟨index, hindex, _⟩ ↦ ⟨index, hindex⟩) (hH.forms hexpr))
    exact ⟨Γ, hextends, hkeep hextends⟩
  | statement htext =>
    have hextends : EmitState.Extends T types Γ Γ s (s.write _) :=
      write_extends hs (code_sentence htext.sentence hH.texts)
    exact ⟨Γ, hextends, hkeep hextends⟩
  | @uniform _ name type _ hname h hparameter =>
    have hextends : EmitState.Extends T types Γ Γ s t := declareUniform_extends h hs
    have hword : IsWordAmong (Γ s.stage) name := by
      obtain ⟨huser, -⟩ | ⟨-, rfl⟩ | ⟨-, texture, hv, htexture, rfl⟩ := hname
      · exact (hwords name (n.kind.parameterNames_subset huser)).mono (hΓ s.stage)
      · have hbase : IsWord "targetSize" := by decide
        have hname : IsWord "" := by decide
        have hplain := isPlainWord_reserved env.settings.backend hbase hname
        rw [toString_text "", String.append_empty] at hplain
        exact hplain.among _
      · exact (isPlainWord_reserved env.settings.backend (by decide)
          ((hH.values texture hv).texture htexture).1).among _
    have hquiet : Quiet (Γ t.stage) name := by
      rw [hextends.stage]
      exact hword.quiet
    exact ⟨Γ, hextends, (hkeep hextends).addParameter
      ⟨hquiet, fun htexture ↦ ⟨hword.1, .inl ⟨name, type, hparameter htexture, htexture⟩⟩⟩⟩
  | @sampler _ texture _ _ _ _ _ hv htexture _ _ h =>
    obtain ⟨hextends, hplain⟩ : EmitState.Extends T types Γ Γ s t ∧ _ :=
      declareSampler_extends h hs ((hH.values texture hv).texture htexture).1
    exact ⟨Γ, hextends, (hkeep hextends).addName (quiet_of_isPlainWord hplain)⟩
  | vertexAttribute _ hvector h =>
    obtain ⟨hextends, hscope⟩ : EmitState.Extends T types Γ Γ s t ∧ _ :=
      vertexAttribute_extends h hs hvector
    exact ⟨Γ, hextends, (hkeep hextends).addValue
      ((hscope.mono (List.nil_subset _)).imp False.elim)⟩
  | script hname h =>
    have hextends : EmitState.Extends T types Γ Γ s t := defineScript_extends h hs
    exact ⟨Γ, hextends, (hkeep hextends).addName ((hwords _ hname).mono (hΓ t.stage)).quiet⟩
  | target _ _ _ h =>
    have hextends : EmitState.Extends T types Γ Γ s t := declareOnce_extends h hs
    exact ⟨Γ, hextends, hkeep hextends⟩
  | @require f =>
    have hsame : s.SameCode { s with requirements := f s.requirements } :=
      ⟨rfl, rfl, rfl, rfl, fun stage ↦ by cases stage <;> exact .refl _⟩
    have hextends : EmitState.Extends T types Γ Γ s _ := .of_sameCode hs hsame
    exact ⟨Γ, hextends, hkeep hextends⟩
  | provide _ h => exact ⟨Γ, .refl hs, hH.addName (quiet_of_provides (b := env.settings.backend) h)⟩
  | @renderState state _ =>
    have hsame : s.SameCode { s with renderState? := some state } :=
      ⟨rfl, rfl, rfl, rfl, fun stage ↦ by cases stage <;> exact .refl _⟩
    have hextends : EmitState.Extends T types Γ Γ s _ := .of_sameCode hs hsame
    exact ⟨Γ, hextends, hkeep hextends⟩
  | @branches t pins arms name p type _ h htype hp hname hattribute hheads hvalues hdeclares =>
    have hbound : (type.isTexture → ∃ pin ∈ pins, env.graph.TakesTexture T n pin) →
        name ∈ types ∧ (type.isTexture → T p.id) := by
      intro htexture
      by_cases hnumeric : type.isNumeric
      · exact ⟨hkeeps.numeric type name hnumeric hname, by
          simp [ValueType.isTexture_of_isNumeric hnumeric]⟩
      · obtain ⟨rfl, hint, hkind⟩ := hdeclares.resolve_left hnumeric
        obtain ⟨pin, hpin, htakes⟩ :=
          htexture (env.settings.backend.isTexture_of_typeName? hname hnumeric)
        obtain rfl := List.mem_singleton.mp hpin
        obtain ⟨hnames, houtputs⟩ := hkeeps.copied hint hkind htakes
        exact ⟨hnames type name hname, fun _ ↦ houtputs p (List.mem_of_find?_eq_some hp)⟩
    obtain ⟨Δ, hextends⟩ := branches_extends hdemand h htype hname hbound hattribute hheads hvalues hΓ
      hs hH
    exact ⟨Δ, hextends, (hkeep hextends).addPins _⟩
  | @loop _ _ _ _ _ _ _ start _ _ _ type _ _ _ hinitial hdeclared _ hnames hstart h _ hnumeric hname
      hscalar hresult hvalue hattribute =>
    have hstartValue : Quiet (Γ s.stage) start := by
      obtain ⟨v, hv, -, hcast⟩ | ⟨-, hzero⟩ := hvalue
      · exact Variable.quiet_cast env.settings.backend hcast (hH.values v (hinitial v hv).1).quiet
      · rw [hzero]
        exact env.settings.backend.quiet_scalarLiteral type .zero
    obtain ⟨Δ, hextends⟩ := loop_extends hdemand (isTexture_loopStart hinitial hdeclared) hnumeric
      hnames hstart h hname
      (hkeeps.numeric _ _ hnumeric hname) hscalar (hkeeps.numeric _ _ rfl hscalar) hresult
      hstartValue hattribute hΓ hs
    exact ⟨Δ, hextends, (hkeep hextends).addPins _⟩
  | @cross t v p hkind hpixel h hvector _ =>
    obtain ⟨Δ, ⟨hsound, locals, declared, k, m, rfl, hgrowth⟩, hscope⟩ :=
      requireInput_extends hdemand h hΓ hs.enter
    rw [hgrowth.stage] at hscope
    have hextends : EmitState.Extends T types Γ _ s (t.carry env.dialect p.id v) :=
      carry_extends hs hpixel hgrowth hsound hscope.quiet hvector
    exact ⟨_, hextends, (hkeep hextends).addPins _⟩

end Steps

end ShaderGraph
