import ShaderGraph.Proofs.Emission.Control
import ShaderGraph.Proofs.Scope.Branches

/-!
# Loops in scope

The output and the counters of a loop are bound before the code that declares them is written. The
body is captured as code in which they are visible, and the headers of the loop are put around it.
-/

namespace ShaderGraph

open EmitM Emitter

/-! ## The body -/

section Body

variable {env : EmitEnv} {demand : Demand} {n : Node} {loop : Loop} {s t : EmitState} {Γ : Visible}
  {T : PinId → Prop} {types base : List String}

theorem bindPins_extends (bindings : List Binding)
    (h : ∀ b ∈ bindings, b.2.InScope (Γ s.stage) (T b.1)) (hs : s.Sound T Γ) :
    EmitState.Extends T types Γ Γ s (bindings.foldl (fun s b ↦ s.bindPin b.1 b.2) s) := by
  induction bindings generalizing s with
  | nil => exact .refl hs
  | cons b bs ih =>
    have hbind : EmitState.Extends T types Γ Γ s (s.bindPin b.1 b.2) :=
      .bindPin hs b.1 (h b List.mem_cons_self)
    have hstage := hbind.stage
    exact hbind.trans (ih (fun c hc ↦ hstage ▸ h c (List.mem_cons_of_mem b hc)) hbind.sound)

theorem loopCondition?_extends (hdemand : demand.IsScoped env T types base n) {isRequired : Bool}
    {condition? : Option String}
    (h : Returns env (loopCondition? demand n isRequired) s condition? t) (hΓ : Γ.Holds base)
    (hs : s.Sound T Γ) :
    ∃ Δ, EmitState.Extends T types Γ Δ s t ∧
      ∀ condition ∈ condition?, Quiet (Δ t.stage) condition := by
  obtain ⟨-, -, rfl, rfl⟩ | ⟨value?, hinput, hcondition⟩ := loopCondition?_cases h
  · exact ⟨Γ, .refl hs, by simp⟩
  · obtain ⟨Δ, hextends, hvalue⟩ := inputValue?_extends hdemand hinput hΓ hs
    refine ⟨Δ, hextends, fun condition hc ↦ ?_⟩
    obtain ⟨v, hv, htext⟩ := hcondition condition hc
    exact Variable.quiet_cast env.settings.backend htext (hvalue v hv).quiet

theorem loopBody_extends (hdemand : demand.IsScoped env T types base n) {names : List String} {value : Variable}
    {condition? : Option String}
    (h : Returns env (loopBody demand n loop names) s (value, condition?) t) (hΓ : Γ.Holds base)
    (hs : s.Sound T Γ) (hnames : ∀ name ∈ names, Quiet (Γ s.stage) name) :
    ∃ Δ, EmitState.Extends T types Γ Δ s t ∧ Quiet (Δ t.stage) value.name ∧
      ∀ condition ∈ condition?, Quiet (Δ t.stage) condition := by
  obtain ⟨bindings, u, hbindings, hcondition, hvalue⟩ := loopBody_cases h
  have hextends : EmitState.Extends T types Γ Γ s _ :=
    bindPins_extends bindings (fun b hb ↦ by
      obtain ⟨-, name, hname, hb⟩ := hbindings b hb
      rw [hb]
      exact inScope_of_isVector (hnames name hname) rfl) hs
  obtain ⟨Δ, hextends', hquiet⟩ :=
    loopCondition?_extends hdemand hcondition (hextends.holds hΓ) hextends.sound
  obtain ⟨Θ, hextends'', hscope⟩ := inputValue?_extends hdemand hvalue
    (hextends'.holds (hextends.holds hΓ)) hextends'.sound
  refine ⟨Θ, (hextends.trans hextends').trans hextends'', (hscope value rfl).quiet, fun condition hc ↦ ?_⟩
  rw [hextends''.stage]
  exact (hquiet condition hc).mono (hextends''.subset _)

end Body

/-! ## The text -/

section Text

variable {scalar : String}

/-- The header of the loop of a counter. -/
def loopHeader (scalar : String) (p : Counter × String) : String :=
  s!"for ({scalar} {p.1.header p.2})"

/-- Tokens of nested loops around a body. -/
def loopTokens (scalar : String) (ps : List (Counter × String)) (body : List Token) : List Token :=
  ps.foldr (fun p ts ↦ tokens (loopHeader scalar p) ++ Token.mark "\x7b" :: (ts ++ [Token.mark "\x7d"])) body

theorem loopTokens_eq (ps : List (Counter × String)) (body : List Token) :
    loopTokens scalar ps body =
      ps.flatMap (fun p ↦ tokens (loopHeader scalar p) ++ [Token.mark "\x7b"]) ++ body ++
        List.replicate ps.length (.mark "\x7d") := by
  induction ps with
  | nil => simp [loopTokens]
  | cons p ps ih =>
    rw [loopTokens, List.foldr_cons, ← loopTokens, ih, List.length_cons, List.replicate_succ']
    simp

theorem grows_openLoops (scalar : String) {b c : CodeBuffer} {ts : List Token} (ps : List (Counter × String))
    (h : b.Grows c ts) :
    b.Grows ((ps.map (loopHeader scalar)).foldl (fun b header ↦ (b.line header).openBlock) c)
      (ts ++ ps.flatMap fun p ↦ tokens (loopHeader scalar p) ++ [Token.mark "\x7b"]) := by
  induction ps generalizing c ts with
  | nil => simpa using h
  | cons p ps ih => simpa using ih ((h.line (loopHeader scalar p)).openBlock)

theorem grows_closeLoops {α : Type} {b c : CodeBuffer} {ts : List Token} (as : List α)
    (h : b.Grows c ts) :
    b.Grows (as.foldl (fun b _ ↦ b.closeBlock) c)
      (ts ++ List.replicate as.length (Token.mark "\x7d")) := by
  induction as generalizing c ts with
  | nil => simpa using h
  | cons a as ih => simpa [List.replicate_succ] using ih h.closeBlock

/-- Tokens of what is written at the end of the body of a loop. -/
def loopTail (condition? : Option String) (assignment : String) : List Token :=
  (condition?.toList.flatMap fun condition ↦ tokens s!"if ({condition} == 0.0) break;") ++
    tokens assignment

/-- The assignment at the end of the body of a loop. -/
theorem loopAssignment_eq (accumulate : Bool) (output result : String) :
    s!"{output} {loopOperator accumulate} {result};" =
      if accumulate then s!"{output} += {result};" else s!"{output} = {result};" := by
  have hadd : " += " = " " ++ (loopOperator true ++ " ") := by decide
  have hset : " = " = " " ++ (loopOperator false ++ " ") := by decide
  cases accumulate with
  | true =>
    rw [if_pos rfl]
    simp only [toString_text, hadd, String.append_assoc]
  | false =>
    rw [if_neg Bool.false_ne_true]
    simp only [toString_text, hset, String.append_assoc]

theorem grows_writeLoop {b c : CodeBuffer} {ts : List Token} {loop : Loop} {names : List String}
    {body assignment : String} {condition? : Option String} (h : b.Grows c ts) :
    b.Grows (writeLoop loop names scalar body condition? assignment c)
      (ts ++ loopTokens scalar (loop.counters.zip names)
        (tokens body ++ loopTail condition? assignment)) := by
  have hbody := (grows_openLoops scalar (loop.counters.zip names) h).splice body
  rw [loopTokens_eq]
  cases condition? with
  | none =>
    have hgrows := grows_closeLoops ((loop.counters.zip names).map (loopHeader scalar))
      (hbody.line assignment)
    refine Eq.mpr ?_ hgrows
    simp [loopTail]
    rfl
  | some condition =>
    have hgrows := grows_closeLoops ((loop.counters.zip names).map (loopHeader scalar))
      ((hbody.line s!"if ({condition} == 0.0) break;").line assignment)
    refine Eq.mpr ?_ hgrows
    simp [loopTail]
    rfl

end Text

section Code

variable {b : Backend} {scalar : String} {types Γ locals declared : List String}

/-- Nested loops around code in which all their counters are visible. -/
theorem code_loops (ps : List (Counter × String)) {ts : List Token}
    (hscalar : b.dialect.typeName? .scalar = some scalar) (hmem : scalar ∈ types)
    (hps : ∀ p ∈ ps, ∃ k, p.2 = temporary k)
    (h : Code types (ps.map Prod.snd ++ Γ) ts locals declared []) :
    ∃ locals', Code types Γ (loopTokens scalar ps ts) locals'
      (ps.map Prod.snd ++ declared) [] := by
  induction ps generalizing Γ with
  | nil => exact ⟨locals, h⟩
  | cons p ps ih =>
    obtain ⟨k, hk⟩ := hps p List.mem_cons_self
    have hsub : p.2 :: ps.map Prod.snd ++ Γ ⊆ ps.map Prod.snd ++ p.2 :: Γ := by
      intro name hname
      simp only [List.cons_append, List.mem_cons, List.mem_append] at hname ⊢
      tauto
    obtain ⟨locals', hinner⟩ := ih (fun q hq ↦ hps q (List.mem_cons_of_mem p hq)) (h.mono hsub)
    refine ⟨[], ?_⟩
    rw [hk] at hinner
    have hloop := code_loop p.1 hscalar hmem hinner
    simpa [loopTokens, loopHeader, hk] using hloop

/-- The end of the body of a loop is code where the output and the condition are in scope. -/
theorem code_loopTail {k : Nat} (accumulate : Bool) {result : String} {condition? : Option String}
    (hk : temporary k ∈ Γ) (hresult : Quiet Γ result)
    (hcondition : ∀ condition ∈ condition?, Quiet Γ condition) :
    Code types Γ (loopTail condition?
      s!"{temporary k} {loopOperator accumulate} {result};") [] [] [] := by
  have hassign : Code types Γ
      (tokens s!"{temporary k} {loopOperator accumulate} {result};") [] [] [] := by
    rw [loopAssignment_eq]
    cases accumulate with
    | true => exact code_accumulate hk hresult
    | false => exact code_assign hk hresult
  cases condition? with
  | none => simpa [loopTail] using hassign
  | some condition =>
    have hbreak : Sentence (· = condition) s!"if ({condition} == 0.0) break;" :=
      ⟨"if (" ++ condition, " == 0.0) break;", by simp [String.append_assoc],
        .after (by decide) (.atom rfl), by decide, by decide⟩
    have hcode : Code types Γ _ [] [] [] := code_sentence hbreak (by
      rintro _ rfl
      exact hcondition _ rfl)
    simpa [loopTail] using hcode.append hassign

/-- The definition of the output of a loop and the loop itself are code. -/
theorem code_writtenLoop (loop : Loop) {name start result body : String} {t : ValueType} {k : Nat}
    {names : List String} {condition? attribute? : Option String}
    (hname : b.dialect.typeName? t = some name) (hmem : name ∈ types)
    (hscalar : b.dialect.typeName? .scalar = some scalar) (hscalarMem : scalar ∈ types)
    (hstart : Quiet Γ start)
    (hattribute : ∀ line ∈ attribute?, b.dialect.unrollAttribute? = some line)
    (hnames : names.length = loop.counters.length) (htemporary : ∀ c ∈ names, ∃ j, c = temporary j)
    (hbody : Code types (names ++ temporary k :: Γ) (tokens body) locals declared [])
    (hresult : Quiet (locals ++ (names ++ temporary k :: Γ)) result)
    (hcondition : ∀ condition ∈ condition?,
      Quiet (locals ++ (names ++ temporary k :: Γ)) condition) :
    ∃ locals', Code types Γ (tokens s!"{name} {temporary k} = {start};" ++
        attribute?.toList.flatMap tokens ++ loopTokens scalar (loop.counters.zip names)
          (tokens body ++ loopTail condition?
            s!"{temporary k} {loopOperator loop.accumulate} {result};"))
      (locals' ++ [temporary k]) (temporary k :: (names ++ declared)) [] := by
  have hsnd : (loop.counters.zip names).map Prod.snd = names := List.map_snd_zip (by omega)
  have htail : Code types (locals ++ (names ++ temporary k :: Γ)) (loopTail condition?
      s!"{temporary k} {loopOperator loop.accumulate} {result};") [] [] [] :=
    code_loopTail loop.accumulate (by simp) hresult hcondition
  have hinner := hbody.append htail
  rw [← hsnd] at hinner
  obtain ⟨locals', hloops⟩ := code_loops (loop.counters.zip names) hscalar hscalarMem
    (fun p hp ↦ htemporary p.2 (List.of_mem_zip hp).2) hinner
  have hdefine := code_define (b := b) (k := k) hname hmem hstart
  have hattributes : Code types ([temporary k] ++ Γ) _ [] [] [] :=
    code_attribute? fun line hline ↦ .inr (.inr (hattribute line hline))
  refine ⟨locals', ?_⟩
  simpa [hsnd] using (hdefine.append hattributes).append hloops

end Code

/-! ## The construct -/

section Construct

variable {env : EmitEnv} {demand : Demand} {n : Node} {loop : Loop} {s t u : EmitState} {Γ : Visible}
  {T : PinId → Prop} {pin : PinId} {declared : ValueType} {names types base : List String} {count : Nat}

/-- The output of a loop starts out as a number, or as nothing. -/
theorem isTexture_loopStart {H : Held} {initial? : Option Variable}
    (hinitial : ∀ v ∈ initial?, v ∈ H.values ∧ v.type.isNumeric)
    (hdeclared : declared = (initial?.map Variable.type).getD .void) : declared.isTexture = false := by
  subst hdeclared
  cases initial? with
  | none => rfl
  | some v => exact ValueType.isTexture_of_isNumeric (hinitial v rfl).2

theorem loopStart_eq (s : EmitState) (pin : PinId) (declared : ValueType) (count : Nat) :
    ({ s.allocate pin declared with nextVariable := s.nextVariable + 1 + count } : EmitState) =
      ({ s with nextVariable := s.nextVariable + (1 + count) } : EmitState).modifyShader s.stage
        fun shader ↦ shader.bind pin ⟨temporary s.nextVariable, declared⟩ := by
  rw [← Nat.add_assoc, EmitState.allocate, EmitState.bindPin]
  cases s.stage <;> rfl

/-- The names of the output and of the counters of a loop. -/
theorem temporaries_loop (first count : Nat) :
    temporary first :: EmitState.temporaries (first + 1) count =
      EmitState.temporaries first (1 + count) := by
  rw [EmitState.temporaries_add]
  rfl

/-- The start of a loop leaves the declarations of its output and of its counters to be written. -/
theorem loopStart_growth (hs : s.Sound T Γ)
    (hnames : names = EmitState.temporaries (s.nextVariable + 1) count)
    (hstart : t = { s.allocate pin declared with nextVariable := s.nextVariable + 1 + count }) :
    EmitState.Growth types Γ s t (fun _ ↦ []) (fun _ ↦ []) []
      (temporary s.nextVariable :: names) (1 + count) 0 := by
  have hgrowth : EmitState.Growth types Γ s _ (s.stage.only []) (s.stage.only []) []
      (temporary s.nextVariable :: names) (1 + count) 0 :=
    .modifyShader (f := fun shader ↦ shader.bind pin ⟨temporary s.nextVariable, declared⟩) hs
      (.bind (EmitState.buffers_endsApart hs s.stage) pin _) (by rw [hnames, temporaries_loop])
  rw [only_nil] at hgrowth
  rw [hstart, loopStart_eq]
  exact hgrowth

/-- The body of a loop is written where its output and its counters are visible. -/
theorem loopStart_sound (hs : s.Sound T Γ) (names : List String)
    (hdeclared : declared.isTexture → T pin)
    (hstart : t = { s.allocate pin declared with nextVariable := s.nextVariable + 1 + count }) :
    t.Sound T (Γ.add s.stage (names ++ [temporary s.nextVariable])) := by
  have hshader : (s.shader s.stage).Sound T (names ++ [temporary s.nextVariable] ++ Γ s.stage) :=
    (hs.shaders s.stage).mono (List.subset_append_right ..)
  rw [hstart, loopStart_eq]
  exact hs.modifyShader (hshader.bind (inScope_temporary (by simp) hdeclared))

theorem shader_loopStart
    (hstart : t = { s.allocate pin declared with nextVariable := s.nextVariable + 1 + count }) :
    t.shader s.stage = (s.shader s.stage).bind pin ⟨temporary s.nextVariable, declared⟩ := by
  rw [hstart, loopStart_eq, EmitState.shader_modifyShader, EmitState.shader_setVariable]

theorem stage_loopStart
    (hstart : t = { s.allocate pin declared with nextVariable := s.nextVariable + 1 + count }) :
    t.stage = s.stage := by
  rw [hstart]
  exact EmitState.stage_allocate ..

/-- The output of a loop is in scope with the type that it gets at the end. -/
theorem retype_sound {type : ValueType} {Γ : List String} {s shader : StageShader} {k : Nat}
    {declared : ValueType} (htype : type.isTexture → T pin) (hs : s.Sound T Γ)
    (hbuffers : shader.buffers = s.buffers)
    (hbindings : shader.bindings = (pin, ⟨temporary k, declared⟩) :: s.bindings)
    (houter : ∀ b ∈ shader.outer, b.2.InScope [] (T b.1))
    (hattributes : ∀ a ∈ shader.attributes, a.2.InScope [] False) :
    (shader.retype pin type).bindings = (pin, ⟨temporary k, type⟩) :: s.bindings ∧
      (shader.retype pin type).Sound T (temporary k :: Γ) := by
  have hretyped : (shader.retype pin type).bindings = (pin, ⟨temporary k, type⟩) :: s.bindings := by
    simp [StageShader.retype, hbindings, StageShader.retypeFirst]
  refine ⟨hretyped, fun b hb ↦ hs.endsApart b (hbuffers ▸ hb), fun b hb ↦ ?_, houter, hattributes⟩
  rw [hretyped] at hb
  rcases List.mem_cons.mp hb with rfl | hb
  · exact inScope_temporary List.mem_cons_self htype
  · exact (hs.bindings b hb).mono (List.subset_cons_self ..)

/-- A loop is written around the captured text of its body. -/
theorem loop_extends (hdemand : demand.IsScoped env T types base n) {name scalar start result : String}
    {type : ValueType} {value : Variable} {condition? attribute? : Option String}
    (hdeclared : declared.isTexture = false) (hnumeric : type.isNumeric)
    (hnames : names = EmitState.temporaries (s.nextVariable + 1) loop.counters.length)
    (hstart : t = { s.allocate pin declared with
      nextVariable := s.nextVariable + 1 + loop.counters.length })
    (h : Returns env (loopBody demand n loop names) t.beginCapture (value, condition?) u)
    (hname : env.dialect.typeName? type = some name) (hmem : name ∈ types)
    (hscalar : env.dialect.typeName? .scalar = some scalar) (hscalarMem : scalar ∈ types)
    (hresult : value.cast type env.dialect = .ok result) (hvalue : Quiet (Γ s.stage) start)
    (hattribute : ∀ line ∈ attribute?, env.dialect.unrollAttribute? = some line)
    (hΓ : Γ.Holds base) (hs : s.Sound T Γ) :
    ∃ Δ, EmitState.Extends T types Γ Δ s
      (((u.endCapture s.stage).retype pin type).modifyBody fun b ↦
        writeLoop loop names scalar (u.capturedText s.stage) condition?
          s!"{temporary s.nextVariable} {loopOperator loop.accumulate} {result};"
          (attribute?.toList.foldl CodeBuffer.line
            (b.line s!"{name} {temporary s.nextVariable} = {start};"))) := by
  have hstage := stage_loopStart hstart
  have hbound := loopStart_sound hs names (by simp [hdeclared]) hstart
  have hnamed : ∀ c ∈ names, ∃ j, c = temporary j := by
    intro c hc
    rw [hnames, EmitState.temporaries, List.mem_map] at hc
    obtain ⟨j, -, rfl⟩ := hc
    exact ⟨j, rfl⟩
  obtain ⟨Δ, ⟨hsound, locals, inner, k, m, rfl, hgrowth⟩, hscope, hcondition⟩ :=
    loopBody_extends hdemand h hΓ.add hbound.beginCapture fun c hc ↦ by
      obtain ⟨j, rfl⟩ := hnamed c hc
      exact quiet_temporary (by simp [hstage, hc])
  have hustage : u.stage = s.stage := by
    rw [hgrowth.stage, EmitState.stage_beginCapture, hstage]
  have hvisible : Γ.add s.stage (names ++ [temporary s.nextVariable]) s.stage =
      names ++ temporary s.nextVariable :: Γ s.stage := by simp
  -- What is written: the definition of the output and the loop around the captured text.
  have hcaptured := hgrowth.code_capturedText
  rw [hstage, hvisible] at hcaptured
  simp only [hustage, hvisible] at hscope hcondition
  have hquiet : Quiet (locals s.stage ++ (names ++ temporary s.nextVariable :: Γ s.stage)) result :=
    Variable.quiet_cast env.settings.backend hresult hscope
  obtain ⟨locals', hcode⟩ := code_writtenLoop loop (b := env.settings.backend)
    hname hmem hscalar hscalarMem hvalue hattribute
    (by simp [hnames, EmitState.temporaries]) hnamed hcaptured hquiet hcondition
  -- Where it is written: the stage that is left by the capture, with the output bound anew.
  obtain ⟨hbuffers, hscopes, hbindings, houter, hattributes⟩ := hgrowth.shader_endCapture
  rw [hstage, shader_loopStart hstart] at hbuffers hscopes hbindings
  rw [hstage] at houter hattributes
  have hcapture := hgrowth.endCapture (Δ := Γ) hbound fun stage hne ↦ by
    rw [hstage] at hne
    exact (Visible.add_of_ne hne).symm
  rw [hstage] at hcapture
  have hframe := hcapture.frame (temporary s.nextVariable :: names)
  simp only [List.append_nil] at hframe
  have hrun := (loopStart_growth hs hnames hstart).trans hframe
  let write : CodeBuffer → CodeBuffer := fun b ↦
    writeLoop loop names scalar (u.capturedText s.stage) condition?
      s!"{temporary s.nextVariable} {loopOperator loop.accumulate} {result};"
      (attribute?.toList.foldl CodeBuffer.line
        (b.line s!"{name} {temporary s.nextVariable} = {start};"))
  have hwrite : ∀ b : CodeBuffer, EndsApart b.text → b.Grows (write b) _ := fun b hb ↦
    grows_writeLoop (((CodeBuffer.Grows.refl hb).line _).lines attribute?.toList)
  have htexture : type.isTexture → T pin := by simp [ValueType.isTexture_of_isNumeric hnumeric]
  have hretyped := retype_sound htexture (hs.shaders s.stage) hbuffers hbindings
    (houter ▸ (hsound.shaders s.stage).outer) (hattributes ▸ (hsound.shaders s.stage).attributes)
  have hbind : (s.shader s.stage).Grows types (Γ s.stage)
      (((u.endCapture s.stage).shader s.stage).retype pin type) [] [] [] :=
    .of_buffers (EmitState.buffers_endsApart hs s.stage) hbuffers hscopes
      (by rw [hretyped.1]; exact List.suffix_cons _ _)
  have hgrows := hbind.trans (.modifyBody (Γ := [] ++ Γ s.stage) hretyped.2.endsApart hwrite hcode)
  have hfinal : EmitState.Growth types Γ s _ _ _ [] [] _ _ :=
    hrun.construct (g := fun shader ↦ (shader.retype pin type).modifyBody write) hgrows (by
      simp [ShaderStage.elsewhere])
  have hstate : ((u.endCapture s.stage).retype pin type).modifyBody write =
      (u.endCapture s.stage).modifyShader s.stage
        fun shader ↦ (shader.retype pin type).modifyBody write := by
    rw [EmitState.modifyBody, EmitState.retype, EmitState.stage_modifyShader,
      EmitState.modifyShader_modifyShader]
    simp [EmitState.endCapture]
  change ∃ Δ, EmitState.Extends T _ Γ Δ s (((u.endCapture s.stage).retype pin type).modifyBody write)
  rw [hstate]
  refine ⟨_, ⟨fun stage ↦ ?_, fun hpixel ↦ ?_, ?_⟩, _, _, _, _, rfl, hfinal⟩
  · by_cases hne : stage = s.stage
    · subst hne
      rw [EmitState.shader_modifyShader, Function.update_self]
      exact (hretyped.2.modifyBody hwrite).mono (by simp)
    · rw [EmitState.shader_modifyShader_of_ne _ _ hne, EmitState.shader_endCapture_of_ne u hne,
        Function.update_of_ne hne]
      have hother := hsound.shaders stage
      rw [Visible.add_of_ne hne] at hother
      simpa [ShaderStage.elsewhere, Function.update_of_ne hne] using hother
  · exact hfinal.captures_vertex (hs.vertex (hfinal.stage.symm.trans hpixel))
  · simpa [EmitState.endCapture] using hsound.samplers

end Construct

end ShaderGraph
