import ShaderGraph.Proofs.Lockstep.Targets

/-!
# Cosmetic settings

Apart from the target, all settings are cosmetic: they decide which version and which precision a source
names, whether its sections have titles, and whether attributes unroll its loops. Compilations of one
graph under settings with the same target fail with the same error, or their programs are the same once
the lines that the settings decide on are deleted from the sources.
-/

namespace ShaderGraph

/-! ## Cosmetic lines -/

namespace Assembly

/-- Titles of the sections of a source. -/
def titles : List String :=
  ["Uniforms", "Samplers", "Inputs", "Outputs", "Subroutines"]

theorem title_mem_titles {d : Dialect} {r : Requirements} {shader : StageShader} {part : Section}
    (h : part ∈ sections d r shader) : part.title ∈ titles := by
  have htitles : (sections d r shader).map Section.title = titles := by
    unfold sections
    split
    rfl
  exact htitles ▸ List.mem_map_of_mem h

end Assembly

namespace Dialect

/-- Lines of the header that name a version or a precision, titles of sections, and attributes that
unroll a loop. -/
def isCosmetic (d : Dialect) (line : String) : Bool :=
  "#version ".toList.isPrefixOf line.toList ||
    (Labelled.all.any fun p : Precision ↦ line == s!"precision {p.qualifier} float;") ||
    (Assembly.titles.any fun title ↦ line == s!"// {title}") ||
    d.unrollAttribute?.any fun unroll ↦ line.toList.dropWhile (· == '\t') == unroll.toList

/-- A cosmetic line that is one line. -/
def Cosmetic (d : Dialect) (line : String) : Prop :=
  IsLine line ∧ d.isCosmetic line

/-- An indented attribute that unrolls a loop. -/
def IsUnroll (d : Dialect) (line : String) : Prop :=
  ∃ level, ∃ unroll ∈ d.unrollAttribute?, line = CodeBuffer.indentation level ++ unroll

variable {d : Dialect} {line : String}

theorem cosmetic_version (d : Dialect) (version : UInt32) : d.Cosmetic s!"#version {version}" := by
  refine ⟨.append (by decide) (isSyntaxWord_toString version.toNat).1.1.isLine, ?_⟩
  simp [isCosmetic]

theorem cosmetic_precision (d : Dialect) (p : Precision) :
    d.Cosmetic s!"precision {p.qualifier} float;" := by
  refine ⟨by cases p <;> decide, ?_⟩
  have hp : p ∈ (Labelled.all : List Precision) := by cases p <;> decide
  have hany : (Labelled.all.any fun q : Precision ↦
      s!"precision {p.qualifier} float;" == s!"precision {q.qualifier} float;") = true :=
    List.any_eq_true.mpr ⟨p, hp, by simp⟩
  rw [isCosmetic, hany]
  simp

theorem cosmetic_title (d : Dialect) {title : String} (h : title ∈ Assembly.titles) :
    d.Cosmetic s!"// {title}" := by
  refine ⟨.append (by decide) ?_, ?_⟩
  · revert title
    decide
  · have hany : (Assembly.titles.any fun other ↦ s!"// {title}" == s!"// {other}") = true :=
      List.any_eq_true.mpr ⟨title, h, by simp⟩
    rw [isCosmetic, hany]
    simp

theorem isUnroll_indent (level : Nat) (h : d.IsUnroll line) :
    d.IsUnroll (CodeBuffer.indentation level ++ line) := by
  obtain ⟨inner, unroll, hunroll, rfl⟩ := h
  refine ⟨level + inner, unroll, hunroll, ?_⟩
  rw [← String.append_assoc, CodeBuffer.indentation, CodeBuffer.indentation, ← String.ofList_append,
    List.replicate_append_replicate]
  rfl

theorem IsUnroll.cosmetic {b : Backend} (h : b.dialect.IsUnroll line) :
    b.dialect.Cosmetic line := by
  obtain ⟨level, unroll, hunroll, rfl⟩ := h
  have hplain : IsLine unroll ∧
      unroll.toList.dropWhile (· == '\t') = unroll.toList := by
    revert unroll
    cases b <;> decide
  refine ⟨.append (CodeBuffer.isLine_indentation level) hplain.1, ?_⟩
  have hdrop : (CodeBuffer.indentation level ++ unroll).toList.dropWhile (· == '\t') =
      unroll.toList := by
    rw [String.toList_append, CodeBuffer.indentation, String.toList_ofList,
      List.dropWhile_append_of_pos (fun c hc ↦ by simp [List.eq_of_mem_replicate hc]), hplain.2]
  have hany : (b.dialect.unrollAttribute?.any fun other ↦
      (CodeBuffer.indentation level ++ unroll).toList.dropWhile (· == '\t') == other.toList) =
        true := by
    rw [Option.mem_def.mp hunroll, Option.any_some, hdrop, beq_self_eq_true]
  rw [isCosmetic, hany, Bool.or_true]

theorem indentable_isUnroll (b : Backend) : CodeBuffer.Indentable b.dialect.IsUnroll where
  isLine _ h := h.cosmetic.1
  nonempty := by
    have hne : ∀ unroll ∈ b.dialect.unrollAttribute?, unroll ≠ "" := by
      cases b <;> decide
    rintro _ ⟨level, unroll, hunroll, rfl⟩ hempty
    exact hne unroll hunroll (String.append_eq_empty_iff.mp hempty).2
  indent _ level h := isUnroll_indent level h

end Dialect

/-! ## Sources -/

namespace Assembly

open CodeBuffer

variable {b : Backend} {settings settings' : Settings} {r : Requirements}

/-- Buffers without indentation that agree but for cosmetic lines, and of which both or neither are
empty. -/
structure Alike (d : Dialect) (b c : CodeBuffer) : Prop where
  agree : b.AgreesBut d.Cosmetic c
  isEmpty : c.isEmpty = b.isEmpty
  level : b.level = 0

namespace Alike

variable {d : Dialect} {b c : CodeBuffer} {s : String}

theorem line (h : Alike d b c) (s : String) : Alike d (b.line s) (c.line s) where
  agree := h.agree.line s
  isEmpty := (isEmpty_line ..).trans (isEmpty_line ..).symm
  level := h.level

theorem lines (h : Alike d b c) (ls : List String) :
    Alike d (ls.foldl CodeBuffer.line b) (ls.foldl CodeBuffer.line c) := by
  induction ls generalizing b c with
  | nil => exact h
  | cons l ls ih => exact ih (h.line l)

theorem left (h : Alike d b c) (hs : d.Cosmetic s) : (b.line s).AgreesBut d.Cosmetic c :=
  h.agree.left (by simpa [h.level] using hs)

theorem right (h : Alike d b c) (hs : d.Cosmetic s) : b.AgreesBut d.Cosmetic (c.line s) :=
  h.agree.right (by simpa [h.agree.level, h.level] using hs)

/-- Lines of which each is cosmetic are written alike. -/
theorem both {t : String} (h : Alike d b c) (hs : d.Cosmetic s) (ht : d.Cosmetic t) :
    Alike d (b.line s) (c.line t) where
  agree := (h.left hs).right (by simpa [h.agree.level, h.level] using ht)
  isEmpty := (isEmpty_line ..).trans (isEmpty_line ..).symm
  level := h.level

theorem separate (h : Alike d b c) : Alike d (separate b) (separate c) := by
  unfold Assembly.separate
  rw [h.isEmpty]
  split
  · exact h
  · exact h.line _

theorem writeSection {part : Section} (h : Alike d b c) (hpart : part.title ∈ titles)
    (comments comments' : Bool) :
    Alike d (writeSection comments b part) (writeSection comments' c part) := by
  unfold Assembly.writeSection
  split
  · exact h
  · next hwritten =>
    have htext : part.text ≠ "" := by simpa using hwritten
    have htitle := Dialect.cosmetic_title d hpart
    have hstart := h.separate
    have htitled : (if comments then (Assembly.separate b).line s!"// {part.title}"
          else Assembly.separate b).AgreesBut d.Cosmetic
        (if comments' then (Assembly.separate c).line s!"// {part.title}"
          else Assembly.separate c) := by
      split <;> split
      · exact hstart.agree.line _
      · exact hstart.left htitle
      · exact hstart.right htitle
      · exact hstart.agree
    refine ⟨htitled.spliceText _, (isEmpty_splice _ htext).trans (isEmpty_splice _ htext).symm, ?_⟩
    rw [level_splice]
    split <;> exact hstart.level

end Alike

theorem alike_header (stage : ShaderStage) :
    Alike b.dialect ((header (settings.retarget b) r stage).foldl CodeBuffer.line {})
      ((header (settings'.retarget b) r stage).foldl CodeBuffer.line {}) := by
  have hempty : Alike b.dialect {} {} := ⟨.refl endsLine_empty, rfl, rfl⟩
  cases b with
  | glsl => exact hempty.both (Dialect.cosmetic_version ..) (Dialect.cosmetic_version ..)
  | glslEs =>
    simp only [header, Settings.retarget, List.foldl_cons, List.foldl_append, List.foldl_nil]
    exact ((hempty.line _).lines _).both (Dialect.cosmetic_precision ..)
      (Dialect.cosmetic_precision ..)
  | hlsl => exact hempty

theorem Alike.sections {d : Dialect} {parts : List Section} {b c : CodeBuffer}
    (h : Alike d b c) (hparts : ∀ part ∈ parts, part.title ∈ titles) (comments comments' : Bool) :
    Alike d (parts.foldl (Assembly.writeSection comments) b)
      (parts.foldl (Assembly.writeSection comments') c) := by
  induction parts generalizing b c with
  | nil => exact h
  | cons part parts ih =>
    exact ih (h.writeSection (hparts part List.mem_cons_self) _ _)
      fun other hother ↦ hparts other (List.mem_cons_of_mem part hother)

section Stages

variable {x y : StageShader}

/-- Entry points around bodies that agree but for attributes of loops. -/
theorem agreesBut_entryPoint {c d : CodeBuffer} (h : c.AgreesBut b.dialect.Cosmetic d)
    (hstage : y.stage = x.stage) (hinput : hasInput y r = hasInput x r)
    (hmain : x.main.AgreesBut b.dialect.IsUnroll y.main) :
    (entryPoint b.dialect r x c).AgreesBut b.dialect.Cosmetic (entryPoint b.dialect r y d) := by
  have hbody {c d : CodeBuffer} (h : c.AgreesBut b.dialect.Cosmetic d) :=
    h.splice (Dialect.indentable_isUnroll b) (fun _ hline ↦ hline.cosmetic) hmain.text
  unfold entryPoint
  rw [hstage, hinput]
  split
  · exact (hbody (h.line _).openBlock).closeBlock
  · exact ((hbody ((h.line _).openBlock.line _)).line _).closeBlock

/-- The sources of a stage that was written alike agree but for cosmetic lines. -/
theorem agreeBut_stageSource (hstage : y.stage = x.stage)
    (h : x.texts.Agree (AgreeBut b.dialect.IsUnroll) y.texts) :
    AgreeBut b.dialect.Cosmetic (stageSource (settings.retarget b) r x)
      (stageSource (settings'.retarget b) r y) := by
  have hdeclarations : y.declarations = x.declarations := h.declarations
  simp only [StageShader.declarations, StageShader.Declarations.mk.injEq] at hdeclarations
  have hinput : hasInput y r = hasInput x r := by
    simp only [hasInput, StageShader.blockText, StageShader.block, hstage, hdeclarations]
  have hsections : sections b.dialect r y = sections b.dialect r x := by
    simp only [sections, inputStruct, outputStruct, hinput, StageShader.blockText, StageShader.block,
      hstage, hdeclarations]
  have hheader : Alike b.dialect
      ((header (settings.retarget b) r x.stage).foldl CodeBuffer.line {})
      ((header (settings'.retarget b) r x.stage).foldl CodeBuffer.line {}) := alike_header x.stage
  have htitles : ∀ part ∈ sections b.dialect r x, part.title ∈ titles :=
    fun _ hpart ↦ title_mem_titles hpart
  have hstart := hheader.sections htitles settings.emitComments settings'.emitComments
  have hsource := agreesBut_entryPoint hstart.separate.agree hstage hinput h.main
  change AgreeBut _ _ (entryPoint b.dialect r y (separate ((sections b.dialect r y).foldl
    (writeSection settings'.emitComments)
    ((header (settings'.retarget b) r y.stage).foldl CodeBuffer.line {})))).text
  rw [hsections, hstage]
  exact hsource.text

end Stages

end Assembly

/-! ## Programs -/

/-- A program without the cosmetic lines of its sources. -/
def Artifact.withoutCosmetics (a : Artifact) : Artifact :=
  { a with
    vertexSource := deleteLines a.backend.dialect.isCosmetic a.vertexSource
    pixelSource := deleteLines a.backend.dialect.isCosmetic a.pixelSource }

section Cosmetics

variable (settings settings' : Settings) (b : Backend) (g : Graph)

/-- Compilations of one graph that differ in cosmetic settings. -/
def Lock.restyling : Lock where
  left := ⟨g, settings.retarget b⟩
  right := ⟨g, settings'.retarget b⟩
  matching := ⟨Eq, Eq, True⟩
  exact := True
  agree := AgreeBut b.dialect.IsUnroll
  tracked := False
  graphs := .refl _ _
  backend _ := rfl
  unrolls _ := .inr fun line hline ↦
    (Dialect.indentable_isUnroll b).skips ⟨0, line, hline, by simp [CodeBuffer.indentation]⟩
  blocks := (Dialect.indentable_isUnroll b).keepsBlocks
  supports := .refl _
  exact_of_strict _ := trivial

variable {settings settings' b g}

theorem Lock.Related.withoutCosmetics_eq {s t : EmitState}
    (h : (Lock.restyling settings settings' b g).Related [] s t) :
    (t.artifact (settings'.retarget b)).withoutCosmetics =
      (s.artifact (settings.retarget b)).withoutCosmetics := by
  have hsource (stage : ShaderStage) :
      deleteLines b.dialect.isCosmetic
          (Assembly.stageSource (settings'.retarget b) s.requirements (t.shader stage)) =
        deleteLines b.dialect.isCosmetic
          (Assembly.stageSource (settings.retarget b) s.requirements (s.shader stage)) :=
    ((Assembly.agreeBut_stageSource (h.shader stage).stage
      ((h.shader stage).texts trivial)).deleteLines_eq fun _ hline ↦ hline).symm
  have hvertex := hsource .vertex
  have hpixel := hsource .pixel
  rw [EmitState.artifact, EmitState.artifact, Artifact.withoutCosmetics, Artifact.withoutCosmetics,
    h.requirements, h.uniforms_eq trivial, h.samplers_eq trivial, h.interpolators, h.renderState]
  simp only [Artifact.mk.injEq]
  exact ⟨rfl, hvertex, hpixel, trivial, trivial, trivial, trivial, trivial⟩

variable (settings settings' b g)

/-- A compilation depends on cosmetic settings in cosmetic lines only. -/
theorem compile_map_withoutCosmetics :
    (compile (settings.retarget b) g).map Artifact.withoutCosmetics =
      (compile (settings'.retarget b) g).map Artifact.withoutCosmetics := by
  let L := Lock.restyling settings settings' b g
  let search := g.visit (g.nodes.size + 1)
  have hadmits (n : Node) : L.Admits n := Lock.admits_of_exact trivial n
  have hprepared : L.Prepared search search :=
    { validation := .refl (fun _ ↦ trivial) _
      terminal := .refl (.refl True) _
      vertexOutputs := List.forall₂_same.mpr fun n _ ↦ .refl True n
      admits := fun n _ ↦ hadmits n }
  have hdemand (n : Node) (_ : n ∈ g.nodes.values) :
      L.Agree [n.id] EmitM.evaluate EmitM.evaluate :=
    .evaluate (Lock.Lockstep.evaluateWithin (L := L) id (fun _ n _ ↦ hadmits n) _)
  have hfollows : L.Follows (L.Related []) (emission (settings.retarget b) g)
      (emission (settings'.retarget b) g) := hprepared.emissionBy hdemand
  rw [compile_eq_map_emission, compile_eq_map_emission]
  have hprograms := (hfollows.map (R := fun a a' : Artifact ↦ a'.withoutCosmetics = a.withoutCosmetics)
    fun _ _ hst ↦ hst.withoutCosmetics_eq).map fun _ _ h ↦ h.symm
  exact (hprograms.eq (L := L) trivial).symm

end Cosmetics

end ShaderGraph
