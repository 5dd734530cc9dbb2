import ShaderGraph.Program.Assembly
import ShaderGraph.Proofs.Members.States
import ShaderGraph.Proofs.Source.Lines

/-!
# Structs of sources

The source of a stage for a target with structs defines the output struct, and the input struct if the
entry point takes one, in lines of their own. It ends in the entry point, in which the body of the
stage stands between the lines that create the output and return it.
-/

namespace ShaderGraph

open CodeBuffer

/-- A line that can stand alone. -/
def IsFullLine (s : String) : Prop :=
  IsLine s ∧ s ≠ ""

theorem DeclaresMember.isFullLine {line : String} (h : DeclaresMember line) : IsFullLine line := by
  refine ⟨h.1, ?_⟩
  rintro rfl
  obtain ⟨-, member, type, semantic, htokens⟩ := h
  cases htokens

namespace Assembly

/-- The lines of the definition of a struct. -/
def structLines (name : String) (members : List String) : List String :=
  s!"struct {name}" :: "\x7b" :: (members.map ("\t" ++ ·) ++ ["\x7d;"])

/-- The lines of an entry point that returns an output struct. -/
def entryLines (output parameter : String) (body : List String) : List String :=
  s!"{output} main({parameter})" :: "\x7b" :: s!"\t{output} o = ({output})0;" ::
    (body ++ ["\treturn o;", "\x7d"])

/-- The parameter of the entry point of a stage. -/
def inputParameter (shader : StageShader) (r : Requirements) : String :=
  if hasInput shader r then s!"{(structNames shader.stage).1} i" else ""

theorem isLine_structNames (stage : ShaderStage) :
    IsLine (structNames stage).1 ∧ IsLine (structNames stage).2 := by
  cases stage <;> decide

theorem isLine_inputParameter (shader : StageShader) (r : Requirements) :
    IsLine (inputParameter shader r) := by
  unfold inputParameter
  split
  · exact .append (isLine_structNames _).1 (by decide)
  · decide

/-! ## Structs -/

section Struct

variable {name text : String} {before after lines : List String}

theorem textLines_struct (hname : IsLine name) (hbefore : ∀ l ∈ before, IsLine l)
    (htext : ∀ l ∈ textLines text, IsFullLine l) (hafter : ∀ l ∈ after, IsLine l) :
    textLines (struct name before text after) =
      structLines name (before ++ textLines text ++ after) := by
  have hopen := ((Adds.refl (b := {}) endsLine_empty).line (s := s!"struct {name}")
    (.append (by decide) hname)).line (s := "\x7b") (by decide)
  have hmembers := ((hopen.indent.lines hbefore).splice text).lines hafter
  have hclose := (hopen.dedent hmembers).line (s := "\x7d;") (by decide)
  have hlines : textLines (struct name before text after) = _ := hclose.textLines_eq
  simp [hlines, structLines, splicedLines_eq htext]

theorem isFullLine_structLines (hname : IsLine name) (hlines : ∀ l ∈ lines, IsFullLine l) :
    ∀ l ∈ structLines name lines, IsFullLine l := by
  intro l hl
  simp only [structLines, List.mem_cons, List.mem_append, List.mem_map, List.not_mem_nil,
    or_false] at hl
  obtain rfl | rfl | ⟨member, hmember, rfl⟩ | rfl := hl
  · exact ⟨.append (by decide) hname, by simp⟩
  · exact ⟨by decide, by decide⟩
  · exact ⟨.append (by decide) (hlines member hmember).1, by simp⟩
  · exact ⟨by decide, by decide⟩

/-- A struct that is spliced into a source stands there in lines of its own. -/
theorem splicedLines_struct (hname : IsLine name) (hbefore : ∀ l ∈ before, IsFullLine l)
    (htext : ∀ l ∈ textLines text, IsFullLine l) (hafter : ∀ l ∈ after, IsFullLine l) :
    splicedLines 0 (struct name before text after) =
      structLines name (before ++ textLines text ++ after) := by
  have hlines := textLines_struct hname (fun l hl ↦ (hbefore l hl).1) htext
    fun l hl ↦ (hafter l hl).1
  have hmembers : ∀ l ∈ before ++ textLines text ++ after, IsFullLine l :=
    List.forall_mem_append.mpr ⟨List.forall_mem_append.mpr ⟨hbefore, htext⟩, hafter⟩
  have hfull := isFullLine_structLines hname hmembers
  rw [← hlines] at hfull ⊢
  simp [splicedLines_eq hfull]

/-- The definition of a struct is not empty. -/
theorem struct_ne_empty (hname : IsLine name) (hbefore : ∀ l ∈ before, IsLine l)
    (htext : ∀ l ∈ textLines text, IsFullLine l) (hafter : ∀ l ∈ after, IsLine l) :
    struct name before text after ≠ "" := by
  intro hempty
  have hlines := textLines_struct hname hbefore htext hafter
  rw [hempty, textLines_empty] at hlines
  cases hlines

end Struct

/-! ## Parts of a source -/

section Parts

variable {b c : CodeBuffer} {ls : List String} {r : Requirements} {shader : StageShader}
  {secs : List Section}

theorem separate_adds (h : b.Adds c ls) : ∃ ms, b.Adds (separate c) (ls ++ ms) := by
  unfold separate
  split
  · exact ⟨[], by simpa using h⟩
  · exact ⟨_, h.line (by decide)⟩

theorem writeSection_adds (comments : Bool) (h : b.Adds c ls) {sec : Section} (htitle : IsLine sec.title) :
    ∃ ms, b.Adds (writeSection comments c sec) (ls ++ ms) ∧
      (sec.text ≠ "" → splicedLines b.level sec.text <:+ ms) := by
  unfold writeSection
  split
  · next hempty => exact ⟨[], by simpa using h, fun hne ↦ absurd (by simpa using hempty) hne⟩
  · obtain ⟨ms, hseparate⟩ := separate_adds h
    cases comments with
    | true =>
      have htext := (hseparate.line (s := s!"// {sec.title}") (.append (by decide) htitle)).splice
        sec.text
      rw [List.append_assoc, List.append_assoc, ← List.append_assoc ms] at htext
      exact ⟨_, htext, fun _ ↦ List.suffix_append ..⟩
    | false =>
      have htext := hseparate.splice sec.text
      rw [List.append_assoc] at htext
      exact ⟨_, htext, fun _ ↦ List.suffix_append ..⟩

/-- Every section that is not empty stands in the source. -/
theorem sections_adds (comments : Bool) (h : b.Adds c ls) (htitles : ∀ sec ∈ secs, IsLine sec.title) :
    ∃ ms, b.Adds (secs.foldl (writeSection comments) c) (ls ++ ms) ∧
      ∀ sec ∈ secs, sec.text ≠ "" → splicedLines b.level sec.text <:+: ms := by
  induction secs generalizing c ls with
  | nil => exact ⟨[], by simpa using h, by simp⟩
  | cons sec secs ih =>
    obtain ⟨ms, hfirst, hsec⟩ := writeSection_adds comments h
      (htitles sec List.mem_cons_self)
    obtain ⟨ns, hrest, hsecs⟩ := ih hfirst fun s hs ↦ htitles s (List.mem_cons_of_mem sec hs)
    refine ⟨ms ++ ns, by simpa [List.append_assoc] using hrest, ?_⟩
    refine List.forall_mem_cons.mpr ⟨fun hne ↦ ?_, fun s hs hne ↦ ?_⟩
    · exact (hsec hne).isInfix.trans (List.infix_append [] ms ns)
    · exact (hsecs s hs hne).trans (List.suffix_append ms ns).isInfix

theorem entryPoint_adds (r : Requirements) (shader : StageShader) (h : b.Adds c ls)
    (hlevel : b.level = 0) :
    b.Adds (entryPoint .hlsl r shader c) (ls ++ entryLines (structNames shader.stage).2
      (inputParameter shader r) (splicedLines 1 shader.main.text)) := by
  have hname := (isLine_structNames shader.stage).2
  have hentry := (h.line (s := s!"{(structNames shader.stage).2} main({inputParameter shader r})")
    (.append (.append (.append hname (by decide)) (isLine_inputParameter shader r))
      (by decide))).line (s := "\x7b") (by decide)
  have hbody := ((hentry.indent.line
    (s := s!"{(structNames shader.stage).2} o = ({(structNames shader.stage).2})0;")
    (.append (.append (.append hname (by decide)) hname) (by decide))).splice
      shader.main.text).line (s := "return o;") (by decide)
  have hclose := (hentry.dedent hbody).line (s := "\x7d") (by decide)
  have hlines : b.Adds (entryPoint .hlsl r shader c) _ := hclose
  simpa [entryLines, h.level, hlevel, String.append_assoc] using hlines

/-- A source has its sections before the entry point. -/
theorem textLines_stageSource {settings : Settings} (hbackend : settings.backend = .hlsl)
    (r : Requirements) (shader : StageShader) :
    ∃ ls, textLines (stageSource settings r shader) =
        ls ++ entryLines (structNames shader.stage).2 (inputParameter shader r)
          (splicedLines 1 shader.main.text) ∧
      ∀ sec ∈ sections .hlsl r shader, sec.text ≠ "" → splicedLines 0 sec.text <:+: ls := by
  have htitles : ∀ sec ∈ sections .hlsl r shader, IsLine sec.title := by
    simp only [sections, List.forall_mem_cons, List.not_mem_nil, IsEmpty.forall_iff, implies_true]
    decide
  obtain ⟨ms, hsections, hstand⟩ := sections_adds (b := {}) settings.emitComments
    (.refl endsLine_empty) htitles
  obtain ⟨ns, hseparate⟩ := separate_adds hsections
  have hsource := entryPoint_adds r shader hseparate rfl
  refine ⟨ms ++ ns, ?_, fun sec hsec hne ↦
    (hstand sec hsec hne).trans (List.prefix_append ms ns).isInfix⟩
  have hheader : header settings r shader.stage = [] := by simp [header, hbackend]
  have hdialect : settings.backend.dialect = .hlsl := by rw [hbackend, Backend.dialect]
  have hlines := hsource.textLines_eq
  simp only [textLines_empty, List.nil_append] at hlines
  simp only [stageSource, hheader, hdialect, List.foldl_nil, hlines]

/-- A struct among the sections of a source is defined there. -/
theorem struct_infix {settings : Settings} (hbackend : settings.backend = .hlsl)
    {title name text : String} {before after : List String}
    (hsection : ⟨title, struct name before text after⟩ ∈ sections .hlsl r shader)
    (hname : IsLine name) (hbefore : ∀ l ∈ before, IsFullLine l)
    (htext : ∀ l ∈ textLines text, IsFullLine l) (hafter : ∀ l ∈ after, IsFullLine l) :
    structLines name (before ++ textLines text ++ after) <:+:
      textLines (stageSource settings r shader) := by
  obtain ⟨ls, hsource, hstand⟩ := textLines_stageSource hbackend r shader
  have hinfix := hstand _ hsection (struct_ne_empty hname (fun l hl ↦ (hbefore l hl).1) htext
    fun l hl ↦ (hafter l hl).1)
  rw [splicedLines_struct hname hbefore htext hafter] at hinfix
  rw [hsource]
  exact hinfix.trans (List.prefix_append ls _).isInfix

theorem inputStruct_eq (h : hasInput shader r) :
    inputStruct shader r = struct (structNames shader.stage).1
      (addedMembers r shader.stage .inputs).1 (shader.blockText .inputs)
      (addedMembers r shader.stage .inputs).2 := by
  rw [inputStruct, if_pos h]
  cases shader.stage <;> rfl

theorem outputStruct_eq (r : Requirements) (shader : StageShader) :
    outputStruct shader = struct (structNames shader.stage).2
      (addedMembers r shader.stage .outputs).1 (shader.blockText .outputs)
      (addedMembers r shader.stage .outputs).2 := by
  rw [outputStruct]
  cases shader.stage <;> rfl

/-- A stage whose entry point takes no input struct has no members for it. -/
theorem memberLines_eq_nil (h : ¬ hasInput shader r) :
    memberLines r shader.stage .inputs (textLines (shader.blockText .inputs)) = [] := by
  unfold hasInput at h
  split at h
  · next hstage =>
    obtain ⟨hempty, hinstance⟩ : shader.blockText .inputs = "" ∧ r.instanceId = false := by
      simpa using h
    simp [memberLines, addedMembers, hstage, hempty, hinstance]
  · simp at h

end Parts

end Assembly

end ShaderGraph
