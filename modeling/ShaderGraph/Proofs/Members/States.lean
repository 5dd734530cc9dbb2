import ShaderGraph.Proofs.Members.Stages

/-!
# Closed emissions

An emission is closed if both of its stages are, with the members that its declarations and
requirements give them so far. Members are never taken back, so what has been closed stays closed while
code is written and members are declared.
-/

namespace ShaderGraph

open EmitM Emitter

/-- The buffer holds the lines, each of which declares a member. -/
def CodeBuffer.Lists (b : CodeBuffer) (lines : List String) : Prop :=
  b = .ofLines lines ∧ ∀ line ∈ lines, DeclaresMember line

theorem CodeBuffer.Lists.textLines_eq {b : CodeBuffer} {lines : List String} (h : b.Lists lines) :
    textLines b.text = lines := by
  rw [h.1]
  exact textLines_ofLines fun line hline ↦ (h.2 line hline).1

theorem CodeBuffer.Lists.snoc {b : CodeBuffer} {lines : List String} {line : String}
    (h : b.Lists lines) (hline : DeclaresMember line) : (b.line line).Lists (lines ++ [line]) := by
  refine ⟨by rw [h.1, line_ofLines], fun l hl ↦ ?_⟩
  rcases List.mem_append.mp hl with hl | hl
  · exact h.2 l hl
  · exact List.mem_singleton.mp hl ▸ hline

namespace EmitState

/-- The lines that declare the members of a block in a stage. -/
def memberLines (s : EmitState) (stage : ShaderStage) (block : Block) : List String :=
  Assembly.memberLines s.requirements stage block (textLines ((s.shader stage).blockText block))

/-- A line of a stage declares the member of the struct variable. -/
def HasMember (s : EmitState) (stage : ShaderStage) : Members :=
  fun w member ↦ ∃ block ∈ structBlock? w, ∃ line ∈ s.memberLines stage block,
    IsMemberLine member line

/-- Both stages select members that are declared, and the lines of the blocks declare members. -/
structure IsClosed (s : EmitState) : Prop where
  shaders : ∀ stage, (s.shader stage).IsClosed (s.HasMember stage)
  blocks : ∀ stage, ∀ block ∈ [Block.inputs, .outputs],
    ∃ lines, ((s.shader stage).block block).Lists lines
  samplers : ∀ e ∈ s.samplers.values, IsOtherWord e.name
  stages : ∀ stage, (s.shader stage).stage = stage

/-- The run from `s` to `t` comes back to its stage, takes no member back and leaves the emission
closed. -/
structure Advances (s t : EmitState) : Prop where
  stage : t.stage = s.stage
  members : ∀ stage w member, s.HasMember stage w member → t.HasMember stage w member
  closed : t.IsClosed

variable {s t u : EmitState}

theorem isClosed_empty : IsClosed {} where
  shaders stage := by
    cases stage <;>
    refine ⟨fun b hb ↦ ?_, by simp [shader], by simp [shader], by simp [shader],
      by simp [shader, StageShader.isDeclared]⟩ <;>
    obtain rfl := List.mem_singleton.mp hb <;>
    exact ⟨by decide, trivial⟩
  blocks stage block hblock := by
    refine ⟨[], ?_, by simp⟩
    obtain rfl | rfl : block = .inputs ∨ block = .outputs := by simpa using hblock
    all_goals cases stage <;> rfl
  samplers := by simp [OrderedMap.values, OrderedMap.empty]
  stages stage := by cases stage <;> rfl

theorem mem_of_structBlock? {w : String} {block : Block} (h : structBlock? w = some block) :
    block ∈ [Block.inputs, .outputs] := by
  unfold structBlock? at h
  split at h <;> cases h <;> simp

/-- The members of a stage depend on two of its blocks and on the requirements. -/
theorem hasMember_of_sameMembers (hrequirements : t.requirements = s.requirements)
    (h : ∀ stage, (s.shader stage).SameMembers (t.shader stage)) : t.HasMember = s.HasMember := by
  funext stage w member
  have hlines (block : Block) (hblock : block ∈ [Block.inputs, .outputs]) :
      t.memberLines stage block = s.memberLines stage block := by
    obtain rfl | rfl : block = .inputs ∨ block = .outputs := by simpa using hblock
    · simp [memberLines, StageShader.blockText, StageShader.block, hrequirements, (h stage).inputs]
    · simp [memberLines, StageShader.blockText, StageShader.block, hrequirements, (h stage).outputs]
  refine propext (exists_congr fun block ↦ and_congr_right fun hblock ↦ ?_)
  rw [hlines block (mem_of_structBlock? hblock)]

/-- Writes a line to a block of a stage. -/
def declareLine (s : EmitState) (stage : ShaderStage) (block : Block) (line : String) : EmitState :=
  s.modifyShader stage fun shader ↦ shader.modifyBlock block fun b ↦ b.line line

section DeclareLine

variable {stage other : ShaderStage} {block b : Block} {line : String}

theorem requirements_declareLine :
    (s.declareLine stage block line).requirements = s.requirements :=
  requirements_modifyShader ..

theorem block_declareLine : ((s.declareLine stage block line).shader other).block b =
    if other = stage ∧ b = block then ((s.shader other).block b).line line
    else (s.shader other).block b := by
  unfold declareLine
  by_cases hother : other = stage
  · subst hother
    rw [shader_modifyShader, StageShader.block_modifyBlock]
    by_cases hb : b = block
    · subst hb
      simp
    · simp [hb]
  · rw [shader_modifyShader_of_ne _ _ hother, if_neg fun h ↦ hother h.1]

theorem stage_shader_declareLine :
    ((s.declareLine stage block line).shader other).stage = (s.shader other).stage := by
  unfold declareLine
  by_cases hother : other = stage
  · subst hother
    rw [shader_modifyShader]
    cases block <;> rfl
  · rw [shader_modifyShader_of_ne _ _ hother]

theorem isClosed_declareLine {M : Members} (hs : (s.shader other).IsClosed M) :
    ((s.declareLine stage block line).shader other).IsClosed M := by
  unfold declareLine
  by_cases hother : other = stage
  · subst hother
    rw [shader_modifyShader]
    cases block <;> exact hs.of_eq rfl rfl rfl rfl rfl
  · rwa [shader_modifyShader_of_ne _ _ hother]

end DeclareLine

theorem Advances.refl (hs : s.IsClosed) : s.Advances s :=
  ⟨rfl, fun _ _ _ ↦ id, hs⟩

theorem Advances.trans (h : s.Advances t) (h' : t.Advances u) : s.Advances u :=
  ⟨h'.stage.trans h.stage,
    fun stage w member hmember ↦ h'.members stage w member (h.members stage w member hmember),
    h'.closed⟩

namespace IsClosed

variable (hs : s.IsClosed)
include hs

/-- Counters, uniforms and the current stage have no part in what is closed. -/
theorem of_eq (hshaders : ∀ stage, t.shader stage = s.shader stage)
    (hrequirements : t.requirements = s.requirements) (hsamplers : t.samplers = s.samplers) :
    t.IsClosed ∧ t.HasMember = s.HasMember := by
  have hmembers : t.HasMember = s.HasMember :=
    hasMember_of_sameMembers hrequirements fun stage ↦ hshaders stage ▸ .refl _
  refine ⟨⟨fun stage ↦ ?_, fun stage ↦ ?_, hsamplers ▸ hs.samplers, fun stage ↦ ?_⟩, hmembers⟩
  · rw [hshaders, hmembers]
    exact hs.shaders stage
  · rw [hshaders]
    exact hs.blocks stage
  · rw [hshaders]
    exact hs.stages stage

theorem advances_of_eq (hstage : t.stage = s.stage)
    (hshaders : ∀ stage, t.shader stage = s.shader stage)
    (hrequirements : t.requirements = s.requirements) (hsamplers : t.samplers = s.samplers) :
    s.Advances t := by
  obtain ⟨hclosed, hmembers⟩ := hs.of_eq hshaders hrequirements hsamplers
  exact ⟨hstage, fun _ _ _ ↦ by rw [hmembers]; exact id, hclosed⟩

theorem modifyShader (stage : ShaderStage) {f : StageShader → StageShader}
    (hf : StageShader.KeepsClosed (s.HasMember stage) f) : s.Advances (s.modifyShader stage f) := by
  have hsame (other : ShaderStage) :
      (s.shader other).SameMembers ((s.modifyShader stage f).shader other) := by
    by_cases hother : other = stage
    · subst hother
      simpa using hf.members (s.shader other)
    · rw [shader_modifyShader_of_ne s f hother]
      exact .refl _
  have hmembers : (s.modifyShader stage f).HasMember = s.HasMember :=
    hasMember_of_sameMembers (requirements_modifyShader s stage f) hsame
  refine ⟨stage_modifyShader s stage f, fun _ _ _ ↦ by rw [hmembers]; exact id,
    fun other ↦ ?_, fun other block hblock ↦ ?_, ?_, fun other ↦ ?_⟩
  · rw [hmembers]
    by_cases hother : other = stage
    · subst hother
      simpa using hf.closed _ (hs.shaders other)
    · rw [shader_modifyShader_of_ne s f hother]
      exact hs.shaders other
  · have hblocks : ((s.modifyShader stage f).shader other).block block =
        (s.shader other).block block := by
      obtain rfl | rfl : block = .inputs ∨ block = .outputs := by simpa using hblock
      · exact (hsame other).inputs
      · exact (hsame other).outputs
    rw [hblocks]
    exact hs.blocks other block hblock
  · rw [samplers_modifyShader]
    exact hs.samplers
  · rw [(hsame other).stage]
    exact hs.stages other

theorem binding {pin : PinId} {v : Variable} (hv : s.binding? pin = some v) :
    v.IsClosed (s.HasMember s.stage) :=
  (hs.shaders s.stage).binding hv

theorem bindPin (pin : PinId) {v : Variable} (hv : v.IsClosed (s.HasMember s.stage)) :
    s.Advances (s.bindPin pin v) :=
  hs.modifyShader s.stage (.bind hv)

theorem setNextVariable (k : Nat) : s.Advances { s with nextVariable := k } :=
  hs.advances_of_eq rfl (fun stage ↦ by cases stage <;> rfl) rfl rfl

theorem allocate (pin : PinId) (type : ValueType) : s.Advances (s.allocate pin type) :=
  have hnext := hs.setNextVariable (s.nextVariable + 1)
  hnext.trans (hnext.closed.bindPin pin
    (Variable.isClosed_of_isOtherWord (isOtherWord_temporary s.nextVariable)))

theorem modifyBody {f : CodeBuffer → CodeBuffer} {ts : List Token}
    (hf : ∀ b : CodeBuffer, EndsApart b.text → b.Grows (f b) ts)
    (hts : Qualified (s.HasMember s.stage) ts) : s.Advances (s.modifyBody f) :=
  hs.modifyShader s.stage (.modifyBody hf hts)

theorem write {line : String} (hline : Qualified (s.HasMember s.stage) (tokens line)) :
    s.Advances (s.write line) :=
  hs.modifyBody (fun _ hb ↦ (CodeBuffer.Grows.refl hb).line line) (by simpa using hline)

theorem retype (pin : PinId) {type : ValueType} (htype : type.isTexture = false) :
    s.Advances (s.retype pin type) :=
  hs.modifyShader s.stage (.retype htype)

theorem beginCapture : s.Advances s.beginCapture :=
  hs.modifyShader s.stage .beginCapture

/-- The end of a capture returns to the stage of the capture. -/
theorem endCapture {stage : ShaderStage} (hstage : s.stage = stage) :
    s.Advances (s.endCapture stage) := by
  have henter := hs.advances_of_eq (t := { s with stage }) hstage.symm
    (fun other ↦ by cases other <;> rfl) rfl rfl
  exact henter.trans (henter.closed.modifyShader stage .endCapture)

/-- Requirements add members. -/
theorem require {f : Requirements → Requirements} (hf : Requirements.IsAddition f) :
    s.Advances { s with requirements := f s.requirements } := by
  have hmembers : ∀ stage w member, s.HasMember stage w member →
      HasMember { s with requirements := f s.requirements } stage w member := by
    rintro stage w member ⟨block, hblock, line, hline, hmember⟩
    exact ⟨block, hblock, line, Assembly.memberLines_subset (hf.frontFace _) (hf.instanceId _)
      (List.Subset.refl _) hline, hmember⟩
  exact ⟨rfl, hmembers, fun stage ↦ (hs.shaders stage).mono (hmembers stage), hs.blocks,
    hs.samplers, hs.stages⟩

/-! ## Declarations -/

/-- A line that is written to a block declares a member of its struct. -/
theorem declareMember (stage : ShaderStage) {block : Block} {w line member : String}
    (hblock : structBlock? w = some block) (hline : IsLine line)
    (hmember : IsMemberLine member line) :
    s.Advances (s.declareLine stage block line) ∧
      (s.declareLine stage block line).HasMember stage w member := by
  have hdeclares : DeclaresMember line := ⟨hline, member, hmember⟩
  have hblocks (other : ShaderStage) (b : Block) (hb : b ∈ [Block.inputs, .outputs]) :
      ∃ lines, (((s.declareLine stage block line).shader other).block b).Lists lines := by
    obtain ⟨lines, hlines⟩ := hs.blocks other b hb
    rw [block_declareLine]
    split
    · exact ⟨_, hlines.snoc hdeclares⟩
    · exact ⟨lines, hlines⟩
  have hsub (other : ShaderStage) (b : Block) (hb : b ∈ [Block.inputs, .outputs]) :
      textLines ((s.shader other).blockText b) ⊆
        textLines (((s.declareLine stage block line).shader other).blockText b) := by
    obtain ⟨lines, hlines⟩ := hs.blocks other b hb
    rw [StageShader.blockText, StageShader.blockText, block_declareLine, hlines.textLines_eq]
    split
    · rw [(hlines.snoc hdeclares).textLines_eq]
      exact List.subset_append_left ..
    · rw [hlines.textLines_eq]
      exact List.Subset.refl _
  have hmembers : ∀ other w member, s.HasMember other w member →
      (s.declareLine stage block line).HasMember other w member := by
    rintro other w member ⟨b, hb, l, hl, hm⟩
    refine ⟨b, hb, l, Assembly.memberLines_subset ?_ ?_ (hsub other b (mem_of_structBlock? hb)) hl,
      hm⟩
    · rw [requirements_declareLine]
      exact id
    · rw [requirements_declareLine]
      exact id
  refine ⟨⟨stage_modifyShader .., hmembers, fun other ↦ ?_, hblocks, ?_, fun other ↦ ?_⟩, block,
    hblock, line, ?_, hmember⟩
  · exact (isClosed_declareLine (hs.shaders other)).mono (hmembers other)
  · rw [declareLine, samplers_modifyShader]
    exact hs.samplers
  · rw [stage_shader_declareLine]
    exact hs.stages other
  · obtain ⟨lines, hlines⟩ := hs.blocks stage block (mem_of_structBlock? hblock)
    refine List.mem_append_left _ (List.mem_append_right _ ?_)
    rw [StageShader.blockText, block_declareLine, if_pos ⟨rfl, rfl⟩,
      (hlines.snoc hdeclares).textLines_eq]
    simp

end IsClosed

end EmitState

/-! ## Declarations of the emitters

What emitters declare for targets with structs: uniforms, samplers and subroutines add no members,
vertex attributes, interpolator slots and render targets add the member by which they are referred to
from then on.
-/

/-! ### Member lines of the dialect -/

namespace Dialect

theorem isOneWord_typeNameOrVoid (type : ValueType) : IsOneWord (hlsl.typeNameOrVoid type) := by
  cases type <;> decide

theorem isMemberName_vertexAttribute (usage : AttributeUsage) (index : UInt32) :
    IsMemberName (hlsl.vertexAttribute usage index).1 := by
  cases usage <;>
    exact isMemberName_numbered (by decide) rfl (by decide) index.toNat

theorem isOneWord_semantic (usage : AttributeUsage) (index : UInt32) :
    IsOneWord (hlsl.vertexAttribute usage index).2 := by
  cases usage <;> exact isOneWord_numbered (by decide) index.toNat

/-- The line that declares an attribute in the input struct. -/
theorem isMemberLine_attribute (type : ValueType) (usage : AttributeUsage) (index : UInt32) :
    IsLine (hlsl.attributeDeclaration type (hlsl.vertexAttribute usage index).1
        (hlsl.vertexAttribute usage index).2) ∧
      IsMemberLine (hlsl.vertexAttribute usage index).1
        (hlsl.attributeDeclaration type (hlsl.vertexAttribute usage index).1
          (hlsl.vertexAttribute usage index).2) :=
  isMemberLine_declaration (isOneWord_typeNameOrVoid type)
    (isMemberName_vertexAttribute usage index).toIsOneWord (isOneWord_semantic usage index)

/-- The lines that declare a slot in the output struct of the vertex stage and in the input struct of
the pixel stage. -/
theorem isMemberLine_slot (type : ValueType) (slot : Nat) :
    ∀ line ∈ [(hlsl.interpolatorDeclarations type (interpolatorName slot) slot).1,
      (hlsl.interpolatorDeclarations type (interpolatorName slot) slot).2],
      IsLine line ∧ IsMemberLine (interpolatorName slot) line := by
  obtain ⟨semantic, hsemantic⟩ : ∃ semantic, semantic = "TEXCOORD" ++ toString slot := ⟨_, rfl⟩
  have hword : IsOneWord semantic := hsemantic ▸ isOneWord_numbered (by decide) slot
  have hcolon : " : TEXCOORD" = " : " ++ "TEXCOORD" := by decide
  have hdeclared : hlsl.interpolatorDeclarations type (interpolatorName slot) slot =
      (s!"{hlsl.typeNameOrVoid type} {interpolatorName slot} : {semantic};",
        s!"{hlsl.typeNameOrVoid type} {interpolatorName slot} : {semantic};") := by
    simp only [Dialect.interpolatorDeclarations, hlsl, hsemantic, toString_text, hcolon,
      String.append_assoc]
  rw [hdeclared]
  simpa only [List.forall_mem_cons, List.not_mem_nil, false_implies, implies_true, and_true,
    and_self] using isMemberLine_declaration (isOneWord_typeNameOrVoid type)
      (isMemberName_interpolatorName slot).toIsOneWord hword

theorem fragmentOutput_hlsl (index : Nat) :
    (hlsl.fragmentOutput index).2 = "o." ++ ("Color" ++ toString index) := by
  have hcolor : "o.Color" = "o." ++ "Color" := by decide
  rw [← String.append_assoc, ← hcolor]
  rfl

/-- The line that declares a render target in the output struct of the pixel stage. -/
theorem isMemberLine_target (index : Nat) :
    ∃ line, (hlsl.fragmentOutput index).1 = some line ∧ IsLine line ∧
      IsMemberLine ("Color" ++ toString index) line := by
  have hword : IsOneWord "float4" := by decide
  have hmember : IsOneWord "Color" := by decide
  have hsemantic : IsOneWord "SV_Target" := by decide
  have hcolor : "float4 Color" = "float4" ++ (" " ++ "Color") := by decide
  have hcolon : " : SV_Target" = " : " ++ "SV_Target" := by decide
  have hline := isMemberLine_declaration hword (isOneWord_numbered hmember index)
    (isOneWord_numbered hsemantic index)
  refine ⟨_, rfl, ?_⟩
  simpa only [toString_text, hcolor, hcolon, String.append_assoc] using hline

end Dialect

/-! ### Names -/

theorem IsWord.ne_member {name : String} (h : IsWord name) (member : String) :
    name ≠ s!"o.{member}" := by
  rintro rfl
  have hpoint := h '.' (by simp)
  cases hpoint

theorem Backend.isOtherWord_of_isReserved (b : Backend) {name first : String}
    (h : ∃ rest, IsWord rest ∧ name = b.dialect.reservedPrefix ++ (first ++ rest))
    (hfirst : IsWord first) : IsOtherWord name := by
  obtain ⟨rest, hrest, rfl⟩ := h
  exact b.isOtherWord_reserved (isWord_append hfirst hrest)

theorem isOtherWord_samplerEntry {s : EmitState} (hs : s.IsClosed) (b : Backend)
    {texture : Variable} (htexture : IsWord texture.name) (state : SamplerState) :
    IsOtherWord (s.samplerEntry b.dialect texture state).name := by
  unfold EmitState.samplerEntry
  split
  · next e he => exact hs.samplers e (List.mem_of_find?_eq_some he)
  · exact b.isOtherWord_of_isReserved (b.isSamplerName_freshSamplerName htexture) (by decide)

/-! ### Declarations -/

namespace EmitState.IsClosed

variable {s : EmitState} {name : String}

/-- Declaring a name in a block without members. -/
theorem declareOnce (hs : s.IsClosed) {block : Block} (hblock : block ≠ .inputs ∧ block ≠ .outputs)
    (declaration? : Option String) (hname : IsWord name) :
    s.Advances (s.declareOnce block name declaration?) := by
  have hdeclare : StageShader.KeepsClosed (s.HasMember s.stage) fun shader ↦ shader.declare name :=
    .declare fun member h ↦ absurd h (hname.ne_member member)
  unfold EmitState.declareOnce
  split
  · exact .refl hs
  · cases declaration? with
    | none => exact hs.modifyShader s.stage hdeclare
    | some line =>
      exact hs.modifyShader s.stage ((StageShader.KeepsClosed.modifyBlock block hblock
        fun b ↦ b.line line).comp hdeclare)

theorem addUniform (hs : s.IsClosed) (name : String) (entry : UniformDeclaration) :
    s.Advances (s.addUniform name entry) :=
  hs.advances_of_eq rfl (fun _ ↦ shader_addUniform ..) rfl rfl

theorem addSampler (hs : s.IsClosed) {entry : SamplerDeclaration} (hentry : IsOtherWord entry.name) :
    s.Advances (s.addSampler entry) := by
  have hmembers : (s.addSampler entry).HasMember = s.HasMember :=
    hasMember_of_sameMembers rfl fun stage ↦ by rw [shader_addSampler]; exact .refl _
  refine ⟨rfl, fun _ _ _ ↦ by rw [hmembers]; exact id, fun stage ↦ ?_, fun stage ↦ ?_,
    fun e he ↦ ?_, fun stage ↦ ?_⟩
  · rw [hmembers, shader_addSampler]
    exact hs.shaders stage
  · rw [shader_addSampler]
    exact hs.blocks stage
  · obtain rfl | he := OrderedMap.mem_values_insert he
    · exact hentry
    · exact hs.samplers e he
  · rw [shader_addSampler]
    exact hs.stages stage

/-- Declaring an attribute, which is referred to as a member of the input struct. -/
theorem addAttribute (hs : s.IsClosed) (name : String) (usage : AttributeUsage) {type : ValueType}
    (hvector : type.isVector) (index : UInt32) :
    s.Advances (s.addAttribute .hlsl name usage type index) ∧
      (⟨Dialect.hlsl.inputReference (Dialect.hlsl.vertexAttribute usage index).1, type⟩ :
        Variable).IsClosed ((s.addAttribute .hlsl name usage type index).HasMember s.stage) := by
  obtain ⟨hline, hmember⟩ := Dialect.isMemberLine_attribute type usage index
  obtain ⟨hdeclared, hhas⟩ := hs.declareMember s.stage (w := "i") rfl hline hmember
  have hselects := selects_reference (by decide) (Dialect.isMemberName_vertexAttribute usage index)
    hhas
  have hv := Variable.isClosed_of_isVector (t := type) hselects hvector
  have hadded := hdeclared.closed.modifyShader s.stage (.addAttribute name hv)
  have hstate : (s.declareLine s.stage .inputs (Dialect.hlsl.attributeDeclaration type
      (Dialect.hlsl.vertexAttribute usage index).1 (Dialect.hlsl.vertexAttribute usage index).2)
      ).modifyShader s.stage (fun shader ↦ shader.addAttribute name ⟨Dialect.hlsl.inputReference
        (Dialect.hlsl.vertexAttribute usage index).1, type⟩) =
      s.addAttribute .hlsl name usage type index := by
    rw [EmitState.declareLine, modifyShader_modifyShader]
    rfl
  rw [← hstate]
  exact ⟨hdeclared.trans hadded, hv.mono fun w member ↦ hadded.members s.stage w member⟩

/-- Declaring a render target, which is referred to as a member of the output struct. -/
theorem declareTarget (hs : s.IsClosed) (index : Nat) :
    s.Advances (s.declareOnce .outputs (Dialect.hlsl.fragmentOutput index).2
      (Dialect.hlsl.fragmentOutput index).1) := by
  obtain ⟨line, hdeclaration, hline, hmember⟩ := Dialect.isMemberLine_target index
  have htarget := Dialect.fragmentOutput_hlsl index
  obtain ⟨hdeclared, hhas⟩ := hs.declareMember s.stage (w := "o") rfl hline hmember
  have hname : ∀ member, (Dialect.hlsl.fragmentOutput index).2 = s!"o.{member}" →
      (s.declareLine s.stage .outputs line).HasMember s.stage "o" member := by
    intro member h
    rw [htarget] at h
    obtain rfl : "Color" ++ toString index = member := by
      have hlists := congrArg String.toList h
      simp only [toString_text, String.toList_append, List.append_cancel_left_eq] at hlists
      exact String.toList_injective (by simpa using hlists)
    exact hhas
  unfold EmitState.declareOnce
  split
  · exact .refl hs
  · have hstate : (s.declareLine s.stage .outputs line).modifyShader s.stage (fun shader ↦
        shader.declare (Dialect.hlsl.fragmentOutput index).2) = s.modifyShader s.stage fun shader ↦
          (Dialect.hlsl.fragmentOutput index).1.toList.foldl (fun shader line ↦
            shader.modifyBlock .outputs fun b ↦ b.line line)
              (shader.declare (Dialect.hlsl.fragmentOutput index).2) := by
      rw [EmitState.declareLine, modifyShader_modifyShader, hdeclaration]
      simp [StageShader.declare_modifyBlock]
    rw [← hstate]
    exact hdeclared.trans (hdeclared.closed.modifyShader s.stage (.declare hname))

end EmitState.IsClosed

section Runs

variable {env : EmitEnv} {n : Node} {s t : EmitState} {name : String} {a : Unit}

theorem declareUniform_advances {type : ValueType} {length? : Option UInt32} (hs : s.IsClosed)
    (hname : IsWord name) (h : Returns env (declareUniform n name type length?) s a t) :
    s.Advances t := by
  obtain ⟨entry, -, rfl⟩ := returns_declareUniform.mp h
  have hadd := hs.addUniform name entry
  exact hadd.trans (hadd.closed.declareOnce (by decide) _ hname)

theorem declareSampler_advances {texture : Variable} {state : SamplerState} {samplerType : String}
    (hs : s.IsClosed) (htexture : IsWord texture.name)
    (h : Returns env (declareSampler texture state samplerType) s name t) :
    s.Advances t ∧ IsOtherWord name := by
  obtain ⟨rfl, rfl⟩ := returns_declareSampler.mp h
  have hname := isOtherWord_samplerEntry hs env.settings.backend htexture state
  have hadd : s.Advances (s.addSampler (s.samplerEntry env.dialect texture state)) :=
    hs.addSampler hname
  exact ⟨hadd.trans (hadd.closed.declareOnce (by decide) _ hname.1), hname⟩

theorem vertexAttribute_advances {usage : AttributeUsage} {type : ValueType} {index : UInt32}
    {v : Variable} (henv : env.dialect = .hlsl) (hs : s.IsClosed) (hvector : type.isVector)
    (h : Returns env (vertexAttribute name usage type index) s v t) :
    s.Advances t ∧ v.IsClosed (t.HasMember s.stage) := by
  obtain ⟨hv, rfl⟩ | ⟨-, rfl, rfl⟩ := returns_vertexAttribute.mp h
  · obtain ⟨a, ha, rfl⟩ := mem_of_lookup hv
    exact ⟨.refl hs, (hs.shaders _).attributes a ha⟩
  · rw [henv]
    exact hs.addAttribute name usage hvector index

theorem defineScript_advances {signature body : String} (hs : s.IsClosed)
    (h : Returns env (defineScript n name signature body) s a t) : s.Advances t := by
  obtain ⟨-, rfl⟩ | ⟨-, rfl⟩ := returns_defineScript.mp h
  · exact .refl hs
  · exact hs.modifyShader s.stage ((StageShader.KeepsClosed.defineScript name signature).comp
      (.modifyBlock .scripts (by decide) _))

end Runs

end ShaderGraph
