import ShaderGraph.Proofs.Emission.Declarations
import ShaderGraph.Proofs.Scope.Growth

/-!
# Writing

Actions that write leave more text behind: the active body of a stage and its blocks may grow, at the
indentation that they had, and nothing else of what encloses the action changes.
-/

namespace ShaderGraph

/-- Text has been appended to a buffer, which is back at its indentation. -/
structure CodeBuffer.Extends (b c : CodeBuffer) : Prop where
  level : c.level = b.level
  text : ∃ added, c.text = b.text ++ added

namespace CodeBuffer

namespace Extends

variable {b c d : CodeBuffer}

theorem refl (b : CodeBuffer) : b.Extends b :=
  ⟨rfl, "", by simp⟩

theorem trans (h : b.Extends c) (h' : c.Extends d) : b.Extends d := by
  obtain ⟨added, htext⟩ := h.text
  obtain ⟨added', htext'⟩ := h'.text
  exact ⟨h'.level.trans h.level, added ++ added', by rw [htext', htext, String.append_assoc]⟩

theorem line (b : CodeBuffer) (s : String) : b.Extends (b.line s) :=
  ⟨rfl, _, by rw [CodeBuffer.line, String.append_assoc, String.append_assoc]⟩

theorem spliceLine (b : CodeBuffer) (s : String) : b.Extends (b.spliceLine s) := by
  unfold CodeBuffer.spliceLine
  split
  · exact ⟨rfl, _, rfl⟩
  · exact line b s

theorem foldl {α : Type} {f : CodeBuffer → α → CodeBuffer} (hf : ∀ (b : CodeBuffer) a, b.Extends (f b a))
    (b : CodeBuffer) (as : List α) : b.Extends (as.foldl f b) := by
  induction as generalizing b with
  | nil => exact refl b
  | cons a as ih => exact (hf b a).trans (ih (f b a))

theorem splice (b : CodeBuffer) (text : String) : b.Extends (b.splice text) :=
  foldl spliceLine b _

/-- What is written inside of a block is written by the block. -/
theorem block (h : b.openBlock.Extends c) : b.Extends c.closeBlock := by
  obtain ⟨added, htext⟩ := (line b "\x7b").text
  obtain ⟨added', htext'⟩ := h.text
  obtain ⟨added'', htext''⟩ := (line c.dedent "\x7d").text
  refine ⟨?_, added ++ added' ++ added'', ?_⟩
  · change c.level - 1 = b.level
    rw [h.level]
    rfl
  · calc c.closeBlock.text = c.text ++ added'' := htext''
      _ = b.openBlock.text ++ added' ++ added'' := by rw [htext']
      _ = b.text ++ added ++ added' ++ added'' := congrArg (· ++ added' ++ added'') htext
      _ = b.text ++ (added ++ added' ++ added'') := by simp only [String.append_assoc]

/-- Blocks that are nested in one another are closed after what they hold is written. -/
theorem blocks {f : CodeBuffer → CodeBuffer} (hf : ∀ b : CodeBuffer, b.Extends (f b)) (headers : List String)
    (b : CodeBuffer) :
    b.Extends (headers.foldl (fun b _ ↦ b.closeBlock)
      (f (headers.foldl (fun b header ↦ (b.line header).openBlock) b))) := by
  induction headers generalizing b with
  | nil => exact hf b
  | cons header headers ih =>
    rw [List.foldl_cons, List.foldl_cons, closeBlocks]
    exact (line b header).trans (block (ih _))

theorem writeBranch (b : CodeBuffer) (text line : String) :
    b.Extends ((b.openBlock.splice text).line line).closeBlock :=
  block ((splice _ text).trans (Extends.line _ line))

theorem writeLoop (loop : Emitter.Loop) (names : List String) (scalar body : String)
    (condition? : Option String) (assignment : String) (b : CodeBuffer) :
    b.Extends (Emitter.writeLoop loop names scalar body condition? assignment b) := by
  cases condition? with
  | none =>
    exact blocks (f := fun b ↦ (b.splice body).line assignment)
      (fun b ↦ (splice b body).trans (line _ assignment)) _ b
  | some condition =>
    exact blocks
      (f := fun b ↦ ((b.splice body).line s!"if ({condition} == 0.0) break;").line assignment)
      (fun b ↦ (splice b body).trans ((line _ _).trans (line _ assignment))) _ b

theorem writeDefinition (signature body : String) (b : CodeBuffer) :
    b.Extends (Emitter.writeDefinition signature body b) := by
  have hstart : b.Extends (if b.isEmpty then b else b.line "") := by
    split
    · exact refl b
    · exact line b ""
  exact hstart.trans ((line _ signature).trans (block (splice _ (trimLineFeeds body))))

end Extends

end CodeBuffer

/-! ## Stages -/

namespace StageShader

/-- The active body and the blocks may have grown; the open scopes and the bodies that wait below
the active one are the same. -/
structure Extends (a b : StageShader) : Prop where
  scopes : b.scopes = a.scopes
  body : ∃ top top' below, a.buffers = top :: below ∧ b.buffers = top' :: below ∧ top.Extends top'
  blocks : ∀ block, (a.block block).Extends (b.block block)

namespace Extends

variable {a b c : StageShader}

theorem of_eq (hscopes : b.scopes = a.scopes) (hcaptures : b.captures = a.captures)
    (hmain : b.main = a.main) (hblocks : ∀ block, b.block block = a.block block) : a.Extends b where
  scopes := hscopes
  body := by
    obtain ⟨top, below, htop⟩ := List.exists_cons_of_ne_nil a.buffers_ne_nil
    refine ⟨top, top, below, htop, ?_, .refl top⟩
    rw [← htop, buffers, hcaptures, hmain, buffers]
  blocks block := by
    rw [hblocks block]
    exact .refl _

theorem refl (a : StageShader) : a.Extends a :=
  of_eq rfl rfl rfl fun _ ↦ rfl

theorem trans (h : a.Extends b) (h' : b.Extends c) : a.Extends c where
  scopes := h'.scopes.trans h.scopes
  body := by
    obtain ⟨top, top', below, ha, hb, hext⟩ := h.body
    obtain ⟨top₂, top₃, below', hb', hc, hext'⟩ := h'.body
    obtain ⟨rfl, rfl⟩ := List.cons.inj (hb.symm.trans hb')
    exact ⟨top, top₃, below, ha, hc, hext.trans hext'⟩
  blocks block := (h.blocks block).trans (h'.blocks block)

end Extends

/-- A stage to which something was written and in which nothing was bound. -/
structure Written (a b : StageShader) : Prop extends a.Extends b where
  bindings : b.bindings = a.bindings
  outer : b.outer = a.outer

namespace Written

variable {a b c : StageShader}

theorem refl (a : StageShader) : a.Written a :=
  ⟨.refl a, rfl, rfl⟩

theorem trans (h : a.Written b) (h' : b.Written c) : a.Written c :=
  ⟨h.toExtends.trans h'.toExtends, h'.bindings.trans h.bindings, h'.outer.trans h.outer⟩

theorem modifyBody {f : CodeBuffer → CodeBuffer} (hf : ∀ b : CodeBuffer, b.Extends (f b)) (a : StageShader) :
    a.Written (a.modifyBody f) := by
  obtain ⟨top, below, htop⟩ := List.exists_cons_of_ne_nil a.buffers_ne_nil
  have hbody : ∃ top top' below, a.buffers = top :: below ∧
      (a.modifyBody f).buffers = top' :: below ∧ top.Extends top' :=
    ⟨top, f top, below, htop, buffers_modifyBody htop, hf top⟩
  unfold StageShader.modifyBody at hbody ⊢
  split at hbody <;> exact ⟨⟨rfl, hbody, fun block ↦ by cases block <;> exact .refl _⟩, rfl, rfl⟩

theorem modifyBlock {f : CodeBuffer → CodeBuffer} (hf : ∀ b : CodeBuffer, b.Extends (f b)) (a : StageShader)
    (block : Block) : a.Written (a.modifyBlock block f) := by
  obtain ⟨top, below, htop⟩ := List.exists_cons_of_ne_nil a.buffers_ne_nil
  have hbuffers : (a.modifyBlock block f).buffers = a.buffers := by cases block <;> rfl
  refine ⟨⟨by cases block <;> rfl, ⟨top, top, below, htop, hbuffers.trans htop, .refl top⟩,
    fun other ↦ ?_⟩, by cases block <;> rfl, by cases block <;> rfl⟩
  cases block <;> cases other <;> first | exact hf _ | exact .refl _

theorem declare (a : StageShader) (name : String) : a.Written (a.declare name) := by
  unfold StageShader.declare
  split
  · exact refl a
  · exact ⟨.of_eq rfl rfl rfl fun block ↦ by cases block <;> rfl, rfl, rfl⟩

theorem addAttribute (a : StageShader) (name : String) (v : Variable) :
    a.Written (a.addAttribute name v) :=
  ⟨.of_eq rfl rfl rfl fun block ↦ by cases block <;> rfl, rfl, rfl⟩

theorem defineScript (a : StageShader) (name signature : String) :
    a.Written (a.defineScript name signature) :=
  ⟨.of_eq rfl rfl rfl fun block ↦ by cases block <;> rfl, rfl, rfl⟩

end Written

end StageShader

/-! ## Emissions -/

namespace EmitState

/-- A state in which something was written and nothing was bound. -/
structure Written (s t : EmitState) : Prop where
  stage : t.stage = s.stage
  inProgress : t.inProgress = s.inProgress
  shader : ∀ stage, (s.shader stage).Written (t.shader stage)

namespace Written

variable {s t u : EmitState}

/-- The tables and the counters may change in any way. -/
theorem of_shaders (hstage : t.stage = s.stage) (hprogress : t.inProgress = s.inProgress)
    (hvertex : t.vertex = s.vertex) (hpixel : t.pixel = s.pixel) : s.Written t where
  stage := hstage
  inProgress := hprogress
  shader stage := by
    cases stage
    · rw [EmitState.shader, EmitState.shader, hvertex]
      exact .refl _
    · rw [EmitState.shader, EmitState.shader, hpixel]
      exact .refl _

theorem refl (s : EmitState) : s.Written s :=
  of_shaders rfl rfl rfl rfl

theorem trans (h : s.Written t) (h' : t.Written u) : s.Written u :=
  ⟨h'.stage.trans h.stage, h'.inProgress.trans h.inProgress,
    fun stage ↦ (h.shader stage).trans (h'.shader stage)⟩

theorem modifyShader {f : StageShader → StageShader} (stage : ShaderStage)
    (hf : ∀ a : StageShader, a.Written (f a)) : s.Written (s.modifyShader stage f) where
  stage := stage_modifyShader ..
  inProgress := inProgress_modifyShader ..
  shader other := by
    by_cases h : other = stage
    · subst h
      rw [shader_modifyShader]
      exact hf _
    · rw [shader_modifyShader_of_ne _ _ h]
      exact .refl _

theorem declareOnce (s : EmitState) (block : Block) (name : String) (declaration? : Option String) :
    s.Written (s.declareOnce block name declaration?) := by
  unfold EmitState.declareOnce
  split
  · exact refl s
  · refine modifyShader _ fun a ↦ (StageShader.Written.declare a name).trans ?_
    cases declaration? with
    | none => exact .refl _
    | some line => exact .modifyBlock (fun b ↦ .line b line) _ block

theorem addAttribute (s : EmitState) (d : Dialect) (name : String) (usage : AttributeUsage)
    (type : ValueType) (index : UInt32) : s.Written (s.addAttribute d name usage type index) :=
  modifyShader _ fun a ↦ (StageShader.Written.modifyBlock (fun b ↦ .line b _) a .inputs).trans
    (.addAttribute _ _ _)

theorem addScript (s : EmitState) (name signature body : String) :
    s.Written (s.addScript name signature body) :=
  modifyShader _ fun a ↦ (StageShader.Written.modifyBlock (.writeDefinition signature body) a
    .scripts).trans (.defineScript _ _ _)

end Written

end EmitState

/-! ## Signatures -/

namespace StageShader

/-- Subroutines keep the signatures under which they are defined. -/
def Remembers (a b : StageShader) : Prop :=
  ∀ name signature, a.signature? name = some signature → b.signature? name = some signature

namespace Remembers

variable {a b c : StageShader}

theorem of_eq (h : b.signatures = a.signatures) : a.Remembers b := by
  intro name signature hsignature
  rwa [signature?, h]

theorem refl (a : StageShader) : a.Remembers a :=
  of_eq rfl

theorem trans (h : a.Remembers b) (h' : b.Remembers c) : a.Remembers c :=
  fun name signature hsignature ↦ h' name signature (h name signature hsignature)

theorem modifyBody (f : CodeBuffer → CodeBuffer) (a : StageShader) : a.Remembers (a.modifyBody f) := by
  unfold StageShader.modifyBody
  split <;> exact of_eq rfl

theorem modifyBlock (f : CodeBuffer → CodeBuffer) (a : StageShader) (block : Block) :
    a.Remembers (a.modifyBlock block f) := by
  cases block <;> exact of_eq rfl

theorem declare (a : StageShader) (name : String) : a.Remembers (a.declare name) := by
  unfold StageShader.declare
  split <;> exact of_eq rfl

/-- A subroutine of a new name hides no other one. -/
theorem defineScript {name : String} (hnew : a.signature? name = none) (signature : String) :
    a.Remembers (a.defineScript name signature) := by
  intro other existing hother
  have hne : (other == name) = false := by
    simp only [beq_eq_false_iff_ne]
    rintro rfl
    rw [hnew] at hother
    cases hother
  rw [signature?, StageShader.defineScript, List.lookup_cons, hne]
  exact hother

theorem addScript {name : String} (hnew : a.signature? name = none) (signature : String)
    (f : CodeBuffer → CodeBuffer) :
    a.Remembers ((a.modifyBlock .scripts f).defineScript name signature) :=
  (modifyBlock f a .scripts).trans (defineScript hnew signature)

end Remembers

end StageShader

namespace EmitState

/-- The subroutines of both stages keep the signatures under which they are defined. -/
def Remembers (s t : EmitState) : Prop :=
  ∀ stage, (s.shader stage).Remembers (t.shader stage)

namespace Remembers

variable {s t u : EmitState}

theorem of_shaders (hvertex : t.vertex = s.vertex) (hpixel : t.pixel = s.pixel) : s.Remembers t := by
  intro stage
  cases stage
  · exact .of_eq (congrArg _ hvertex)
  · exact .of_eq (congrArg _ hpixel)

theorem refl (s : EmitState) : s.Remembers s :=
  of_shaders rfl rfl

theorem trans (h : s.Remembers t) (h' : t.Remembers u) : s.Remembers u :=
  fun stage ↦ (h stage).trans (h' stage)

theorem modifyShader {f : StageShader → StageShader} (stage : ShaderStage)
    (hf : (s.shader stage).Remembers (f (s.shader stage))) :
    s.Remembers (s.modifyShader stage f) := by
  intro other
  by_cases h : other = stage
  · subst h
    rwa [shader_modifyShader]
  · rw [shader_modifyShader_of_ne _ _ h]
    exact .refl _

end Remembers

/-- A state in which something was written, nothing was bound, and every subroutine has kept its
signature. -/
structure Inscribed (s t : EmitState) : Prop extends s.Written t where
  remembers : s.Remembers t

namespace Inscribed

variable {s t u : EmitState}

theorem of_shaders (hstage : t.stage = s.stage) (hprogress : t.inProgress = s.inProgress)
    (hvertex : t.vertex = s.vertex) (hpixel : t.pixel = s.pixel) : s.Inscribed t :=
  ⟨.of_shaders hstage hprogress hvertex hpixel, .of_shaders hvertex hpixel⟩

theorem refl (s : EmitState) : s.Inscribed s :=
  of_shaders rfl rfl rfl rfl

theorem trans (h : s.Inscribed t) (h' : t.Inscribed u) : s.Inscribed u :=
  ⟨h.toWritten.trans h'.toWritten, h.remembers.trans h'.remembers⟩

theorem modifyShader {f : StageShader → StageShader} (stage : ShaderStage)
    (hf : ∀ a : StageShader, a.Written (f a)) (hsignatures : ∀ a : StageShader, a.Remembers (f a)) :
    s.Inscribed (s.modifyShader stage f) :=
  ⟨.modifyShader stage hf, .modifyShader stage (hsignatures _)⟩

theorem declareOnce (s : EmitState) (block : Block) (name : String) (declaration? : Option String) :
    s.Inscribed (s.declareOnce block name declaration?) := by
  refine ⟨.declareOnce s block name declaration?, ?_⟩
  unfold EmitState.declareOnce
  split
  · exact .refl s
  · refine .modifyShader _ ((StageShader.Remembers.declare _ name).trans ?_)
    cases declaration? with
    | none => exact .refl _
    | some line => exact .modifyBlock (fun b ↦ b.line line) _ block

theorem addAttribute (s : EmitState) (d : Dialect) (name : String) (usage : AttributeUsage)
    (type : ValueType) (index : UInt32) : s.Inscribed (s.addAttribute d name usage type index) :=
  ⟨.addAttribute s d name usage type index, .modifyShader _ (.of_eq rfl)⟩

theorem addScript {name : String} (hnew : (s.shader s.stage).signature? name = none)
    (signature body : String) : s.Inscribed (s.addScript name signature body) :=
  ⟨.addScript s name signature body, .modifyShader _ (.addScript hnew signature _)⟩

end Inscribed

end EmitState

end ShaderGraph
