import ShaderGraph.Proofs.Members.Sources
import ShaderGraph.Proofs.Members.Steps
import ShaderGraph.Proofs.Scope.Program

/-!
# Members in compiled programs

Every emission for a target with structs is closed. In the assembled sources the entry point selects
members of the two structs only, which are defined before it, and it takes the input struct if it
selects one of its members.
-/

namespace ShaderGraph

open EmitM Emitter

section Evaluation

variable {env : EmitEnv} {demand : Demand} {n : Node} {ns : List Node} {H K : Held}
  {s t : EmitState}

theorem Steps.advances (henv : env.dialect = .hlsl) (hdemand : demand.IsClosed env)
    (hwords : ∀ name ∈ n.kind.userNames, IsOtherWord name) (h : Steps env demand n H s K t)
    (hs : s.IsClosed) (hH : H.IsClosed (s.HasMember s.stage))
    (hstages : ∀ stage ∈ H.stages, stage = s.stage) :
    s.Advances t ∧ K.IsClosed (t.HasMember s.stage) ∧ ∀ stage ∈ K.stages, stage = s.stage := by
  induction h with
  | refl => exact ⟨.refl hs, hH, hstages⟩
  | snoc _ hstep ih =>
    obtain ⟨hfirst, hK, hstages⟩ := ih hs hH hstages
    rw [← hfirst.stage] at hK hstages ⊢
    obtain ⟨hlast, hL, hstages⟩ := hstep.advances henv hdemand hwords hfirst.closed hK hstages
    exact ⟨hfirst.trans hlast, hL, hstages⟩

theorem runsReading_advances (henv : env.dialect = .hlsl) (hdemand : demand.IsClosed env)
    (hwords : ∀ name ∈ n.kind.userNames, IsOtherWord name) {pins : List String} {id : NodeId}
    (h : RunsReading env demand n pins (s.beginNode id) t) (hs : s.IsClosed) :
    s.Advances (t.endNode id) := by
  obtain ⟨H, hsteps, -⟩ := h
  have hbegin : s.Advances (s.beginNode id) :=
    hs.advances_of_eq rfl (fun stage ↦ by cases stage <;> rfl) rfl rfl
  obtain ⟨hrun, -, -⟩ := hsteps.advances henv hdemand hwords hbegin.closed .empty (by simp)
  exact (hbegin.trans hrun).trans
    (hrun.closed.advances_of_eq rfl (fun stage ↦ by cases stage <;> rfl) rfl rfl)

theorem evaluate_isClosed (henv : env.dialect = .hlsl)
    (hnames : ∀ name ∈ env.graph.userNames, IsOtherWord name) : Demand.IsClosed env evaluate := by
  intro id pin s v t h
  refine evaluateWithin_induction (P := fun _ _ s v t ↦ s.IsClosed →
    s.Advances t ∧ v.IsClosed (t.HasMember s.stage)) ?_ ?_ _ id pin s v t (returns_evaluate.mp h)
  · intro _ _ s v hv hs
    exact ⟨.refl hs, hs.binding hv⟩
  · intro demand hdemand _ _ n s v u hn _ _ _ hrun hv hs
    have hadvances := runsReading_advances henv hdemand
      (fun name hname ↦ hnames name (Graph.mem_userNames (Graph.node?_mem hn) hname)) hrun hs
    refine ⟨hadvances, ?_⟩
    rw [← hadvances.stage]
    exact hadvances.closed.binding hv

theorem terminalRun_advances (henv : env.dialect = .hlsl)
    (hnames : ∀ name ∈ env.graph.userNames, IsOtherWord name) (hn : n ∈ env.graph.nodes.values)
    (h : TerminalRun env n s t) (hs : s.IsClosed) : s.Advances t := by
  obtain ⟨u, hrun, rfl⟩ := h
  exact runsReading_advances henv (evaluate_isClosed henv hnames)
    (fun name hname ↦ hnames name (Graph.mem_userNames hn hname)) (emitKind_runs hrun) hs

theorem terminalRuns_advances (henv : env.dialect = .hlsl)
    (hnames : ∀ name ∈ env.graph.userNames, IsOtherWord name)
    (hns : ∀ n ∈ ns, n ∈ env.graph.nodes.values) (h : TerminalRuns env ns s t)
    (hs : s.IsClosed) : s.Advances t := by
  induction h with
  | nil => exact .refl hs
  | cons hrun _ ih =>
    have hfirst := terminalRun_advances henv hnames (hns _ List.mem_cons_self) hrun hs
    exact hfirst.trans (ih (fun n hn ↦ hns n (List.mem_cons_of_mem _ hn)) hfirst.closed)

end Evaluation

/-- Every emission for a target with structs is closed at its end. -/
theorem emission_isClosed {settings : Settings} {g : Graph} {s : EmitState}
    (hbackend : settings.backend = .hlsl) (hnames : ∀ name ∈ g.userNames, IsOtherWord name)
    (h : emission settings g = .ok s) : s.IsClosed := by
  obtain ⟨pixelOutput, t, u, hterminal, hpixel, hvertex, rfl⟩ := emission_runs h
  have henv : EmitEnv.dialect ⟨g, settings⟩ = .hlsl := by
    rw [EmitEnv.dialect, hbackend, Backend.dialect]
  have hfirst := terminalRun_advances henv hnames (Graph.terminal_mem hterminal) hpixel
    EmitState.isClosed_empty
  obtain ⟨henter, -⟩ := hfirst.closed.of_eq (t := { t with stage := .vertex })
    (fun stage ↦ by cases stage <;> rfl) rfl rfl
  have hlast := terminalRuns_advances henv hnames (fun n hn ↦ (List.mem_filter.mp hn).1) hvertex
    henter
  exact (hlast.closed.of_eq (t := { u with stage := .pixel }) (fun stage ↦ by cases stage <;> rfl) rfl rfl).1

/-! ## Programs -/

/-- The members that the structs of a stage declare. -/
def structMembers (inputs outputs : List String) : Members
  | "i", member => ∃ line ∈ inputs, IsMemberLine member line
  | "o", member => ∃ line ∈ outputs, IsMemberLine member line
  | _, _ => False

/-- A struct variable that occurs has a member. -/
theorem Qualified.exists_member {M : Members} {ts : List Token} {w : String} (h : Qualified M ts)
    (hw : w ∈ structVariables) (hmem : .word w ∈ ts) : ∃ member, M w member := by
  induction ts with
  | nil => cases hmem
  | cons t ts ih =>
    cases t with
    | mark m => exact ih h (by simpa using hmem)
    | word v =>
      by_cases hv : w = v
      · subst hv
        obtain ⟨member, rest, -, hmember⟩ := h.1 hw
        exact ⟨member, hmember⟩
      · exact ih h.2 (by simpa [hv] using hmem)

namespace EmitState.IsClosed

open Assembly

variable {s : EmitState} {stage : ShaderStage} (hs : s.IsClosed)
include hs

theorem isFullLine_block {block : Block} (hblock : block ∈ [Block.inputs, .outputs]) :
    ∀ l ∈ textLines ((s.shader stage).blockText block), IsFullLine l := by
  obtain ⟨lines, hlines⟩ := hs.blocks stage block hblock
  rw [StageShader.blockText, hlines.textLines_eq]
  exact fun l hl ↦ (hlines.2 l hl).isFullLine

/-- Every line of a struct declares a member. -/
theorem declaresMember {block : Block} (hblock : block ∈ [Block.inputs, .outputs]) :
    ∀ l ∈ s.memberLines stage block, DeclaresMember l := by
  intro l hl
  rw [EmitState.memberLines, Assembly.memberLines, List.mem_append, List.mem_append] at hl
  obtain (hbefore | hlisted) | hafter := hl
  · exact declaresMember_of_mem_added (.inl hbefore)
  · obtain ⟨lines, hlines⟩ := hs.blocks stage block hblock
    rw [StageShader.blockText, hlines.textLines_eq] at hlisted
    exact hlines.2 l hlisted
  · exact declaresMember_of_mem_added (.inr hafter)

theorem members_shader : Qualified
    (structMembers (s.memberLines stage .inputs) (s.memberLines stage .outputs))
    (tokens (s.shader stage).main.text) := by
  have hmain := ((hs.shaders stage).bodies (s.shader stage).main (by simp [StageShader.buffers])).2
  refine hmain.mono ?_
  rintro w member ⟨block, hblock, hmember⟩
  unfold structBlock? at hblock
  split at hblock
  · cases hblock
    exact hmember
  · cases hblock
    exact hmember
  · cases hblock

/-- The output struct is defined. -/
theorem outputs_infix {settings : Settings} (hbackend : settings.backend = .hlsl) :
    structLines (structNames stage).2 (s.memberLines stage .outputs) <:+:
      textLines (stageSource settings s.requirements (s.shader stage)) := by
  have hsection : ⟨"Outputs", outputStruct (s.shader stage)⟩ ∈
      sections .hlsl s.requirements (s.shader stage) := by simp [sections, Dialect.hlsl]
  rw [outputStruct_eq s.requirements, hs.stages stage] at hsection
  exact struct_infix hbackend hsection (isLine_structNames stage).2
    (fun l hl ↦ (declaresMember_of_mem_added (.inl hl)).isFullLine) (hs.isFullLine_block (by simp))
    fun l hl ↦ (declaresMember_of_mem_added (.inr hl)).isFullLine

/-- The input struct is defined if the entry point takes one. -/
theorem inputs_infix {settings : Settings} (hbackend : settings.backend = .hlsl)
    (h : hasInput (s.shader stage) s.requirements) :
    structLines (structNames stage).1 (s.memberLines stage .inputs) <:+:
      textLines (stageSource settings s.requirements (s.shader stage)) := by
  have hsection : ⟨"Inputs", inputStruct (s.shader stage) s.requirements⟩ ∈
      sections .hlsl s.requirements (s.shader stage) := by simp [sections, Dialect.hlsl]
  rw [inputStruct_eq h, hs.stages stage] at hsection
  exact struct_infix hbackend hsection (isLine_structNames stage).1
    (fun l hl ↦ (declaresMember_of_mem_added (.inl hl)).isFullLine) (hs.isFullLine_block (by simp))
    fun l hl ↦ (declaresMember_of_mem_added (.inr hl)).isFullLine

/-- The entry point takes an input struct if the body names it. -/
theorem hasInput_of_mem (h : .word "i" ∈ tokens (s.shader stage).main.text) :
    hasInput (s.shader stage) s.requirements := by
  obtain ⟨member, line, hline, -⟩ := hs.members_shader.exists_member (by decide) h
  by_contra hnone
  have hnil := memberLines_eq_nil hnone
  rw [hs.stages stage] at hnil
  rw [EmitState.memberLines, hnil] at hline
  cases hline

end EmitState.IsClosed

/-- In a program for a target with structs the entry point of each stage names the two struct
variables only to select members that its structs declare. The output struct is defined in the
source, and if the entry point names the input variable, it takes it as a parameter whose struct is
defined too. -/
theorem compile_members {settings : Settings} {g : Graph} {a : Artifact}
    (hbackend : settings.backend = .hlsl) (hnames : ∀ name ∈ g.userNames, IsOtherWord name)
    (h : compile settings g = .ok a) :
    ∃ s, emission settings g = .ok s ∧ a = s.artifact settings ∧ ∀ stage,
      ∃ (inputs outputs body : List String) (parameter : String),
        (∀ line ∈ inputs ++ outputs, DeclaresMember line) ∧
        body.flatMap tokens = tokens (s.shader stage).main.text ∧
        Assembly.entryLines (Assembly.structNames stage).2 parameter body <:+
          textLines (a.source stage) ∧
        Assembly.structLines (Assembly.structNames stage).2 outputs <:+:
          textLines (a.source stage) ∧
        (.word "i" ∈ body.flatMap tokens →
          parameter = s!"{(Assembly.structNames stage).1} i" ∧
            Assembly.structLines (Assembly.structNames stage).1 inputs <:+:
              textLines (a.source stage)) ∧
        Qualified (structMembers inputs outputs) (body.flatMap tokens) := by
  obtain ⟨s, hemission, rfl⟩ := compile_eq_ok_iff.mp h
  have hs := emission_isClosed hbackend hnames hemission
  refine ⟨s, hemission, rfl, fun stage ↦ ⟨s.memberLines stage .inputs, s.memberLines stage .outputs,
    CodeBuffer.splicedLines 1 (s.shader stage).main.text,
    Assembly.inputParameter (s.shader stage) s.requirements, ?_⟩⟩
  have hsource : (s.artifact settings).source stage =
      Assembly.stageSource settings s.requirements (s.shader stage) := by
    cases stage <;> rfl
  obtain ⟨ls, hlines, -⟩ := Assembly.textLines_stageSource hbackend s.requirements (s.shader stage)
  rw [hsource, CodeBuffer.tokens_splicedLines]
  refine ⟨fun line hline ↦ ?_, rfl, ?_, hs.outputs_infix hbackend, fun hmem ↦ ?_,
    hs.members_shader⟩
  · exact (List.mem_append.mp hline).elim (hs.declaresMember (by simp) line)
      (hs.declaresMember (by simp) line)
  · rw [hlines, hs.stages stage]
    exact List.suffix_append ..
  · have hinput := hs.hasInput_of_mem hmem
    rw [Assembly.inputParameter, if_pos hinput, hs.stages stage]
    exact ⟨rfl, hs.inputs_infix hbackend hinput⟩

/-- A graph whose stages use members of all kinds: a vertex attribute in both stages, an instance
index, an interpolator in one arm of a branch and the position in the other, and the front face. -/
def membersInBranch : Graph :=
  .numbered
    [.pixelOutput {}, .conditional .less .dynamic, .frontFace, .interpolator,
      .vertexInput "uv" .custom .vec4 0, .fragmentPosition, .vertexOutput, .arithmetic .mul,
      .instanceIndex, .uniform "threshold" .scalar]
    [⟨1, "Output", 0, "Input"⟩, ⟨2, "Output", 1, "Input"⟩, ⟨9, "Output", 1, "Reference"⟩,
      ⟨3, "Output", 1, "CaseTrue"⟩, ⟨5, "Output", 1, "CaseFalse"⟩, ⟨4, "Output", 3, "Input"⟩,
      ⟨7, "Output", 6, "Input"⟩, ⟨4, "Output", 7, "Input1"⟩, ⟨8, "Output", 7, "Input2"⟩]

theorem compile_members_membersInBranch :
    (∀ name ∈ membersInBranch.userNames, IsOtherWord name) ∧
      ∃ a s, compile { backend := .hlsl } membersInBranch = .ok a ∧
        emission { backend := .hlsl } membersInBranch = .ok s ∧
        a = s.artifact { backend := .hlsl } ∧ ∀ stage,
        ∃ (inputs outputs body : List String) (parameter : String),
          (∀ line ∈ inputs ++ outputs, DeclaresMember line) ∧
          body.flatMap tokens = tokens (s.shader stage).main.text ∧
          Assembly.entryLines (Assembly.structNames stage).2 parameter body <:+
            textLines (a.source stage) ∧
          Assembly.structLines (Assembly.structNames stage).2 outputs <:+:
            textLines (a.source stage) ∧
          (.word "i" ∈ body.flatMap tokens →
            parameter = s!"{(Assembly.structNames stage).1} i" ∧
              Assembly.structLines (Assembly.structNames stage).1 inputs <:+:
                textLines (a.source stage)) ∧
          Qualified (structMembers inputs outputs) (body.flatMap tokens) := by
  have hnames : ∀ name ∈ membersInBranch.userNames, IsOtherWord name := by decide +kernel
  obtain ⟨a, h⟩ := exists_ok_of_isOk (x := compile { backend := .hlsl } membersInBranch)
    (by decide +kernel)
  obtain ⟨s, hmembers⟩ := compile_members rfl hnames h
  exact ⟨hnames, a, s, h, hmembers⟩

end ShaderGraph
