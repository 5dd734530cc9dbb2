import ShaderGraph.Proofs.Emission.Evaluation
import ShaderGraph.Proofs.Members.States
import ShaderGraph.Proofs.Scope.Loops

/-!
# Steps of closed emissions

Every step of an emitter for a target with structs advances a closed emission: it writes references to
declared members only, and what the emitter has at hand refers to declared members too. The names that
the author of the graph gives are taken to be words other than the struct variables.
-/

namespace ShaderGraph

open EmitM Emitter

-- The tokens of a text are known by their lemmas only: to unfold this would be to evaluate the text.
attribute [local irreducible] Qualified

/-! ## What is at hand -/

/-- What is at hand selects declared members. -/
structure Held.IsClosed (M : Members) (H : Held) : Prop where
  values : ∀ v ∈ H.values, v.IsClosed M
  operands : ∀ v ∈ H.operands, Selects M v.name
  names : ∀ name ∈ H.names, Selects M name

namespace Held.IsClosed

variable {M N : Members} {H : Held} {text name : String}

theorem empty : IsClosed M {} :=
  ⟨by simp, by simp, by simp⟩

theorem mono (h : H.IsClosed M) (hsub : ∀ w member, M w member → N w member) : H.IsClosed N :=
  ⟨fun v hv ↦ (h.values v hv).mono hsub, fun v hv ↦ (h.operands v hv).mono hsub,
    fun name hname ↦ (h.names name hname).mono hsub⟩

theorem texts (h : H.IsClosed M) : ∀ text ∈ H.texts, Selects M text := by
  intro text htext
  simp only [Held.texts, List.mem_append, List.mem_map] at htext
  obtain (⟨v, hv, rfl⟩ | ⟨v, hv, rfl⟩) | hname := htext
  · exact (h.values v hv).selects
  · exact h.operands v hv
  · exact h.names text hname

theorem forms (h : H.IsClosed M) (hform : H.Forms text) : Selects M text :=
  hform.phrase.selects h.texts

theorem computes (h : H.IsClosed M) {b : Backend} (hexpr : H.Computes b.dialect text) :
    Selects M text :=
  (hexpr.phrase fun _ htext ↦ (h.forms htext).isBraceFree).selects h.texts

theorem read (h : H.IsClosed M) {pin : String} {value? : Option Variable}
    (hvalue : ∀ v ∈ value?, v.IsClosed M) : (H.read pin value?).IsClosed M where
  values v hv := (List.mem_append.mp hv).elim (fun hv ↦ hvalue v (by simpa using hv)) (h.values v)
  operands := h.operands
  names := h.names

theorem addValue (h : H.IsClosed M) {v : Variable} (hv : v.IsClosed M) :
    (H.addValue v).IsClosed M :=
  ⟨by simpa using ⟨hv, h.values⟩, h.operands, h.names⟩

theorem addOperand (h : H.IsClosed M) {t : ValueType} (htext : Selects M text) :
    (H.addOperand text t).IsClosed M :=
  ⟨h.values, by simpa using ⟨htext, h.operands⟩, h.names⟩

theorem addName (h : H.IsClosed M) (hname : Selects M name) : (H.addName name).IsClosed M :=
  ⟨h.values, h.operands, by simpa using ⟨hname, h.names⟩⟩

theorem addParameter (h : H.IsClosed M) {v : Variable} (hv : v.IsClosed M) :
    (H.addParameter v).IsClosed M :=
  ⟨by simpa using ⟨hv, h.values⟩, h.operands, h.names⟩

theorem addPins (h : H.IsClosed M) (pins : List String) : (H.addPins pins).IsClosed M :=
  ⟨h.values, h.operands, h.names⟩

theorem addStage (h : H.IsClosed M) (stage : ShaderStage) : (H.addStage stage).IsClosed M :=
  ⟨h.values, h.operands, h.names⟩

end Held.IsClosed

/-! ## Inputs -/

/-- The demand advances closed emissions and returns values that select declared members. -/
def Demand.IsClosed (env : EmitEnv) (demand : Demand) : Prop :=
  ∀ id pin s v t, Returns env (demand id pin) s v t → s.IsClosed →
    s.Advances t ∧ v.IsClosed (t.HasMember s.stage)

section Inputs

variable {env : EmitEnv} {demand : Demand} {n : Node} {s t : EmitState} {pin : String}

theorem inputValue?_advances (hdemand : demand.IsClosed env) {value? : Option Variable}
    (h : Returns env (inputValue? demand n pin) s value? t) (hs : s.IsClosed) :
    s.Advances t ∧ ∀ v ∈ value?, v.IsClosed (t.HasMember s.stage) := by
  obtain ⟨p, -, ⟨c, v, -, rfl, hv⟩ | ⟨-, rfl, ⟨l, -, rfl⟩ | ⟨-, -, rfl⟩⟩⟩ := inputValue?_cases h
  · obtain ⟨hadvances, hclosed⟩ := hdemand _ _ _ _ _ hv hs
    exact ⟨hadvances, by simpa using hclosed⟩
  · refine ⟨.refl hs, fun v hv ↦ ?_⟩
    obtain rfl := Option.mem_some.mp hv
    have hphrase : Phrase (fun _ ↦ False) (env.dialect.vectorLiteral l.components) :=
      env.settings.backend.phrase_vectorLiteral l.components
    exact Variable.isClosed_of_isVector (hphrase.selects (by simp)) l.isVector_type
  · exact ⟨.refl hs, by simp⟩

theorem requireInput_advances (hdemand : demand.IsClosed env) {v : Variable}
    (h : Returns env (requireInput demand n pin) s v t) (hs : s.IsClosed) :
    s.Advances t ∧ v.IsClosed (t.HasMember s.stage) := by
  obtain ⟨hadvances, hv⟩ := inputValue?_advances hdemand (returns_requireInput.mp h) hs
  exact ⟨hadvances, hv v rfl⟩

/-- The text and the value of a branch select declared members. -/
structure Emitter.Branch.IsClosed (M : Members) (branch : Branch) : Prop where
  text : Qualified M (tokens branch.text)
  value : branch.value.IsClosed M

theorem Emitter.Branch.IsClosed.mono {M N : Members} {branch : Branch} (h : branch.IsClosed M)
    (hsub : ∀ w member, M w member → N w member) : branch.IsClosed N :=
  ⟨h.text.mono hsub, h.value.mono hsub⟩

theorem captureBranch_advances (hdemand : demand.IsClosed env) {branch : Branch}
    (h : Returns env (captureBranch demand n pin) s branch t) (hs : s.IsClosed) :
    s.Advances t ∧ branch.IsClosed (t.HasMember s.stage) := by
  simp only [captureBranch, returns_bind, returns_pure] at h
  obtain ⟨⟨v, text⟩, t', hcapture, rfl, rfl⟩ := h
  obtain ⟨u, hinput, rfl, rfl⟩ := returns_capture.mp hcapture
  have hbegin := hs.beginCapture
  obtain ⟨hadvances, hv⟩ := requireInput_advances hdemand hinput hbegin.closed
  have hrun := hbegin.trans hadvances
  have hend := hadvances.closed.endCapture hrun.stage
  rw [hbegin.stage] at hv
  exact ⟨hrun.trans hend, (hadvances.closed.shaders s.stage).captured.mono (hend.members s.stage),
    hv.mono (hend.members s.stage)⟩

theorem captures_advances (hdemand : demand.IsClosed env) {pins : List String}
    {branches : List Branch} (h : Returns env (pins.mapM (captureBranch demand n)) s branches t)
    (hs : s.IsClosed) :
    s.Advances t ∧ ∀ branch ∈ branches, branch.IsClosed (t.HasMember s.stage) := by
  induction pins generalizing s branches with
  | nil =>
    obtain ⟨rfl, rfl⟩ := returns_mapM_nil.mp h
    exact ⟨.refl hs, by simp⟩
  | cons pin pins ih =>
    obtain ⟨branch, s', branches, hbranch, hrest, rfl⟩ := returns_mapM_cons.mp h
    obtain ⟨hfirst, hclosed⟩ := captureBranch_advances hdemand hbranch hs
    obtain ⟨hlater, hall⟩ := ih hrest hfirst.closed
    rw [hfirst.stage] at hall
    exact ⟨hfirst.trans hlater,
      List.forall_mem_cons.mpr ⟨hclosed.mono (hlater.members s.stage), hall⟩⟩

theorem bindPins_advances (bindings : List Binding) (hs : s.IsClosed)
    (h : ∀ b ∈ bindings, ∃ k, b.2 = ⟨temporary k, .scalar⟩) :
    s.Advances (bindings.foldl (fun s b ↦ s.bindPin b.1 b.2) s) := by
  induction bindings generalizing s with
  | nil => exact .refl hs
  | cons b bs ih =>
    obtain ⟨k, hb⟩ := h b List.mem_cons_self
    have hbind := hs.bindPin b.1 (v := b.2)
      (hb ▸ Variable.isClosed_of_isOtherWord (isOtherWord_temporary k))
    exact hbind.trans (ih hbind.closed fun c hc ↦ h c (List.mem_cons_of_mem b hc))

/-- The value of the body of a loop and its condition select declared members. -/
theorem loopBody_advances (hdemand : demand.IsClosed env) {loop : Loop} {names : List String}
    {value : Variable} {condition? : Option String}
    (h : Returns env (loopBody demand n loop names) s (value, condition?) t) (hs : s.IsClosed)
    (hnames : ∀ name ∈ names, ∃ k, name = temporary k) :
    s.Advances t ∧ value.IsClosed (t.HasMember s.stage) ∧
      ∀ condition ∈ condition?, Selects (t.HasMember s.stage) condition := by
  obtain ⟨bindings, u, hbindings, hcondition, hvalue⟩ := loopBody_cases h
  have hbind := bindPins_advances bindings hs fun b hb ↦ by
    obtain ⟨-, name, hname, hb⟩ := hbindings b hb
    obtain ⟨k, rfl⟩ := hnames name hname
    exact ⟨k, hb⟩
  obtain ⟨hread, hselects⟩ : s.Advances u ∧
      ∀ condition ∈ condition?, Selects (u.HasMember s.stage) condition := by
    obtain ⟨-, -, rfl, rfl⟩ | ⟨value?, hinput, htexts⟩ := loopCondition?_cases hcondition
    · exact ⟨hbind, by simp⟩
    · obtain ⟨hadvances, hclosed⟩ := inputValue?_advances hdemand hinput hbind.closed
      refine ⟨hbind.trans hadvances, fun condition hc ↦ ?_⟩
      obtain ⟨v, hv, htext⟩ := htexts condition hc
      rw [hbind.stage] at hclosed
      exact Variable.selects_cast env.settings.backend htext (hclosed v hv).selects
  obtain ⟨hlast, hv⟩ := inputValue?_advances hdemand hvalue hread.closed
  rw [hread.stage] at hv
  exact ⟨hread.trans hlast, hv value rfl,
    fun condition hc ↦ (hselects condition hc).mono (hlast.members s.stage)⟩

end Inputs

/-! ## Lines -/

section Lines

variable {M : Members} {H : Held} {b : Backend} {t : ValueType} {name v e line : String} {k : Nat}

theorem Backend.isOtherWord_typeName (h : b.dialect.typeName? t = some name) :
    IsOtherWord name := by
  have hword := (b.isSyntaxWord_typeNameOrVoid t).isOtherWord
  rwa [Dialect.typeNameOrVoid, h] at hword

theorem qualified_assignment (hv : Qualified M (tokens v)) (he : Qualified M (tokens e)) :
    Qualified M (tokens s!"{v} = {e};") := by
  simp only [toString_text, tokens_semicolon, tokens_equals]
  exact (hv.append (qualified_mark.mpr he)).append (by simp)

theorem qualified_temporary : Qualified M (tokens (temporary k)) :=
  (Selects.of_isOtherWord (isOtherWord_temporary k)).qualified

theorem qualified_typeName (h : b.dialect.typeName? t = some name) : Qualified M (tokens name) :=
  (Selects.of_isOtherWord (b.isOtherWord_typeName h)).qualified

theorem qualified_declaration (h : b.dialect.typeName? t = some name) :
    Qualified M (tokens s!"{name} {temporary k};") := by
  simp only [toString_text, tokens_semicolon, tokens_space]
  exact ((qualified_typeName h).append qualified_temporary).append (by simp)

theorem qualified_definition (h : b.dialect.typeName? t = some name)
    (he : Qualified M (tokens e)) : Qualified M (tokens s!"{name} {temporary k} = {e};") := by
  simp only [toString_text, tokens_semicolon, tokens_equals, tokens_space]
  exact (((qualified_typeName h).append qualified_temporary).append
    (qualified_mark.mpr he)).append (by simp)

/-- The attributes of branches and loops name no struct variable. -/
theorem qualified_attribute? {attribute? : Option String}
    (h : ∀ line ∈ attribute?, b.dialect.flattenAttribute? = some line ∨
      b.dialect.branchAttribute? = some line ∨ b.dialect.unrollAttribute? = some line) :
    Qualified M (attribute?.toList.flatMap tokens) := by
  refine qualified_flatMap fun line hline ↦ qualified_of_notMem ?_
  cases b <;> obtain h | h | h := h line (by simpa using hline) <;> cases h <;> decide

/-- The block of an arm selects the members that its branch and its value select. -/
theorem Arm.qualified {arm : Arm} (hH : H.IsClosed M)
    (hhead : arm.head = [] ∨ ∃ line, arm.head = [line] ∧ Arm.IsHead H line)
    (hvalue : arm.branch.value.cast t b.dialect = .ok arm.value)
    (hbranch : arm.branch.IsClosed M) : Qualified M (arm.tokens (temporary k)) := by
  have hheads : Qualified M (arm.head.flatMap ShaderGraph.tokens) := by
    obtain hnone | ⟨line, hone, hline⟩ := hhead
    · rw [hnone]
      exact qualified_nil
    · rw [hone, List.flatMap_singleton]
      obtain rfl | hline := hline
      · exact qualified_of_notMem (by decide)
      · exact (hline.sentence.selects hH.texts).qualified
  have hassign := qualified_assignment (M := M) (qualified_temporary (k := k))
    (Variable.selects_cast b hvalue hbranch.value.selects).qualified
  rw [Arm.tokens]
  exact hheads.append (qualified_mark.mpr ((hbranch.text.append hassign).append (by simp)))

/-- The end of the body of a loop selects the members that its condition and its value select. -/
theorem qualified_loopTail (accumulate : Bool) {condition? : Option String}
    (he : Qualified M (tokens e)) (hcondition : ∀ condition ∈ condition?, Selects M condition) :
    Qualified M (loopTail condition? s!"{temporary k} {loopOperator accumulate} {e};") := by
  refine (qualified_flatMap fun condition hc ↦ ?_).append ?_
  · have hbreak : Sentence (· = condition) s!"if ({condition} == 0.0) break;" :=
      ⟨"if (" ++ condition, " == 0.0) break;", by simp [String.append_assoc],
        .after (by decide) (.atom rfl), by decide, by decide⟩
    exact (hbreak.selects fun a ha ↦ ha ▸ hcondition condition (by simpa using hc)).qualified
  · rw [loopAssignment_eq]
    cases accumulate with
    | true =>
      rw [if_pos rfl, tokens_accumulation (tokens_temporary k),
        qualified_word (isOtherWord_temporary k).2, qualified_mark, qualified_mark]
      exact he.append (by simp)
    | false => exact qualified_assignment qualified_temporary he

theorem qualified_loops {ps : List (Counter × String)} {ts : List Token}
    (hscalar : b.dialect.typeName? .scalar = some name) (hps : ∀ p ∈ ps, ∃ k, p.2 = temporary k)
    (h : Qualified M ts) : Qualified M (loopTokens name ps ts) := by
  induction ps with
  | nil => exact h
  | cons p ps ih =>
    obtain ⟨k, hk⟩ := hps p List.mem_cons_self
    obtain ⟨test, htest, htokens⟩ := tokens_header (k := k) p.1 hscalar
    have hselects : Selects M test :=
      htest.selects fun a ha ↦ ha ▸ .of_isOtherWord (isOtherWord_temporary k)
    have hrest := ih fun q hq ↦ hps q (List.mem_cons_of_mem p hq)
    have hfor : "for" ∉ structVariables := by decide
    have hheader : Qualified M (tokens (loopHeader name p)) := by
      rw [loopHeader, hk, htokens, qualified_word hfor, qualified_mark,
        qualified_word (b.isOtherWord_typeName hscalar).2,
        qualified_word (isOtherWord_temporary k).2, qualified_mark]
      exact hselects.qualified
    exact hheader.append (qualified_mark.mpr (hrest.append (by simp)))

end Lines

/-! ## Members that are there already -/

section Provided

variable {s : EmitState} {stage : ShaderStage} {text : String}

/-- The added members of a stage are there. -/
theorem hasMember_of_added {block : Block} {w member line : String}
    (hblock : structBlock? w = some block)
    (hline : line ∈ (Assembly.addedMembers s.requirements stage block).1 ∨
      line ∈ (Assembly.addedMembers s.requirements stage block).2)
    (hmember : IsMemberLine member line) : s.HasMember stage w member := by
  refine ⟨block, hblock, line, ?_, hmember⟩
  obtain hline | hline := hline
  · exact List.mem_append_left _ (List.mem_append_left _ hline)
  · exact List.mem_append_right _ hline

theorem isMemberLine_position : IsMemberLine "Position" Assembly.positionMember :=
  ⟨"float4", "SV_Position", by decide⟩

theorem selects_of_provides (h : Dialect.hlsl.Provides s.requirements stage text) :
    Selects (s.HasMember stage) text := by
  cases h with
  | fragCoord =>
    have hmember : s.HasMember .pixel "i" "Position" :=
      hasMember_of_added rfl (.inl (by simp [Assembly.addedMembers])) isMemberLine_position
    have hselects := selects_reference (by decide) ⟨by decide, by decide⟩ hmember
    have hposition : Phrase (· = "i.Position") "i.Position" := .atom rfl
    have hphrase := hposition.select (y := "xy") (.word (by decide))
    exact hphrase.selects fun a ha ↦ ha ▸ hselects
  | frontFacing hface =>
    have hline : "bool FrontFace : SV_IsFrontFace;" ∈
        (Assembly.addedMembers s.requirements .pixel .inputs).2 := by
      simp [Assembly.addedMembers, hface]
    have hmember : s.HasMember .pixel "i" "FrontFace" :=
      hasMember_of_added rfl (.inr hline) ⟨"bool", "SV_IsFrontFace", by decide⟩
    exact selects_reference (by decide) ⟨by decide, by decide⟩ hmember
  | instanceId htext hinstance =>
    cases htext
    have hline : "uint InstanceId : SV_InstanceID;" ∈
        (Assembly.addedMembers s.requirements .vertex .inputs).2 := by
      simp [Assembly.addedMembers, hinstance]
    have hmember : s.HasMember .vertex "i" "InstanceId" :=
      hasMember_of_added rfl (.inr hline) ⟨"uint", "SV_InstanceID", by decide⟩
    have hselects := selects_reference (by decide) ⟨by decide, by decide⟩ hmember
    have hindex : Phrase (· = "i.InstanceId") "i.InstanceId" := .atom rfl
    have hphrase := Phrase.call (f := "float") (.word (by decide)) hindex
    exact hphrase.selects fun a ha ↦ ha ▸ hselects

/-- The targets that are written are members of the output struct. -/
theorem selects_target {target : String}
    (h : (target = Dialect.hlsl.positionOutput ∧ stage = .vertex) ∨
      ∃ index, target = (Dialect.hlsl.fragmentOutput index).2 ∧
        ((Dialect.hlsl.fragmentOutput index).1.isSome → (s.shader stage).isDeclared target))
    (hs : s.IsClosed) : Selects (s.HasMember stage) target := by
  obtain ⟨rfl, rfl⟩ | ⟨index, rfl, hdeclared⟩ := h
  · have hmember : s.HasMember .vertex "o" "Position" :=
      hasMember_of_added rfl (.inl (by simp [Assembly.addedMembers])) isMemberLine_position
    exact selects_reference (by decide) ⟨by decide, by decide⟩ hmember
  · have hname : IsMemberName ("Color" ++ toString index) :=
      isMemberName_numbered (by decide) rfl (by decide) index
    have htarget := Dialect.fragmentOutput_hlsl index
    have hmember := (hs.shaders stage).targets ("Color" ++ toString index) (by
      rw [htarget] at hdeclared
      exact hdeclared rfl)
    rw [htarget, ← String.append_assoc]
    exact selects_reference (by decide) hname hmember

end Provided

/-! ## Values carried over to the pixel stage -/

/-- A slot is declared in both structs before it is written and read. -/
theorem EmitState.IsClosed.carry {s : EmitState} (hs : s.IsClosed) (pin : PinId) {v : Variable}
    (hv : v.IsClosed (s.HasMember .vertex)) (hvector : v.type.isVector) :
    ({ s with stage := .pixel } : EmitState).Advances (s.carry .hlsl pin v) := by
  obtain ⟨houtput, hinput⟩ := List.forall_mem_cons.mp
    (Dialect.isMemberLine_slot v.type s.interpolators)
  obtain ⟨hinput, -⟩ := List.forall_mem_cons.mp hinput
  have hname := isMemberName_interpolatorName s.interpolators
  obtain ⟨henter, hsame⟩ := hs.of_eq (t := { s with stage := .pixel })
    (fun stage ↦ by cases stage <;> rfl) rfl rfl
  have hcount := henter.advances_of_eq
    (t := { s with stage := .pixel, interpolators := s.interpolators + 1 }) rfl
    (fun stage ↦ by cases stage <;> rfl) rfl rfl
  -- The slot is declared and written in the vertex stage,
  obtain ⟨hdeclared, hslot⟩ := hcount.closed.declareMember .vertex (w := "o") rfl houtput.1 houtput.2
  have hvalue : v.IsClosed _ := hv.mono fun w member hm ↦
    hdeclared.members .vertex w member (hcount.members .vertex w member (hsame ▸ hm))
  have hassign := qualified_assignment (selects_reference (by decide) hname hslot).qualified
    hvalue.selects.qualified
  have hwritten := hdeclared.closed.modifyShader .vertex
    (.modifyBody (fun _ hb ↦ (CodeBuffer.Grows.refl hb).line _) (by simpa using hassign))
  -- and declared and bound in the pixel stage.
  obtain ⟨hread, hslot⟩ := hwritten.closed.declareMember .pixel (w := "i") rfl hinput.1 hinput.2
  have hbound := hread.closed.modifyShader .pixel (.bindOuter pin
    (Variable.isClosed_of_isVector (selects_reference (by decide) hname hslot) hvector))
  exact (((hcount.trans hdeclared).trans hwritten).trans hread).trans hbound

/-! ## Steps -/

section Steps

variable {env : EmitEnv} {demand : Demand} {n : Node} {H K : Held} {s t : EmitState}

theorem Step.advances (henv : env.dialect = .hlsl) (hdemand : demand.IsClosed env)
    (hwords : ∀ name ∈ n.kind.userNames, IsOtherWord name) (h : Step env demand n H s K t)
    (hs : s.IsClosed) (hH : H.IsClosed (s.HasMember s.stage))
    (hstages : ∀ stage ∈ H.stages, stage = s.stage) :
    s.Advances t ∧ K.IsClosed (t.HasMember s.stage) ∧ ∀ stage ∈ K.stages, stage = s.stage := by
  -- What is at hand stays closed as members are added.
  have hkeep {t : EmitState} (h : s.Advances t) : H.IsClosed (t.HasMember s.stage) :=
    hH.mono (h.members s.stage)
  have hdone {t : EmitState} (h : s.Advances t) :
      s.Advances t ∧ H.IsClosed (t.HasMember s.stage) ∧ ∀ stage ∈ H.stages, stage = s.stage :=
    ⟨h, hkeep h, hstages⟩
  have hwrite {pin : PinId} {type : ValueType} {line : String}
      (hline : ∀ M : Members, (∀ w member, s.HasMember s.stage w member → M w member) →
        Qualified M (tokens line)) : s.Advances ((s.allocate pin type).write line) := by
    have hallocate := hs.allocate pin type
    refine hallocate.trans (hallocate.closed.write ?_)
    rw [hallocate.stage]
    exact hline _ (hallocate.members s.stage)
  cases h with
  | guard => exact ⟨.refl hs, hH.addStage _, by simpa using hstages⟩
  | read h =>
    obtain ⟨hadvances, hvalue⟩ := inputValue?_advances hdemand h hs
    exact ⟨hadvances, (hkeep hadvances).read hvalue, hstages⟩
  | hoist _ h => exact hdone (hdemand _ _ _ _ _ h hs).1
  | @convert v _ _ hv h =>
    exact ⟨.refl hs, hH.addOperand (Variable.selects_cast env.settings.backend h
      (hH.values v hv).selects), hstages⟩
  | define _ _ hname hexpr =>
    have hselects := hH.computes (b := env.settings.backend) hexpr
    exact hdone (hwrite fun M hsub ↦ qualified_definition (b := env.settings.backend) hname
      (hselects.qualified.mono hsub))
  | constant _ _ hname hliteral =>
    refine hdone (hwrite fun M _ ↦ ?_)
    have hconst : "const" ∉ structVariables := by decide
    rw [tokens_constant, qualified_word hconst]
    exact qualified_definition (b := env.settings.backend) hname
      (Held.IsClosed.empty.forms hliteral).qualified
  | @declare _ name p type _ _ hname =>
    have hadvances : s.Advances ((s.allocate p.id type).write _) := hwrite fun M _ ↦
      qualified_declaration (b := env.settings.backend) (k := s.nextVariable) hname
    exact ⟨hadvances, (hkeep hadvances).addName
      (.of_isOtherWord (isOtherWord_temporary s.nextVariable)), hstages⟩
  | @forward _ p v _ hv =>
    refine hdone (hs.bindPin p.id ?_)
    obtain hv | ⟨hvector, hform, -⟩ := hv
    · exact hH.values v hv
    · exact Variable.isClosed_of_isVector (hH.forms hform) hvector
  | output htarget hexpr =>
    rw [henv] at htarget
    have hselects := selects_target
      (htarget.imp_left fun h ↦ ⟨h.1, (hstages _ h.2).symm⟩) hs
    exact hdone (hs.write (qualified_assignment hselects.qualified (hH.forms hexpr).qualified))
  | statement htext => exact hdone (hs.write (htext.sentence.selects hH.texts).qualified)
  | @uniform _ name type _ hname h =>
    have hword : IsOtherWord name := by
      obtain ⟨huser, -⟩ | ⟨-, rfl⟩ | ⟨-, texture, hv, htexture, rfl⟩ := hname
      · exact hwords name (n.kind.parameterNames_subset huser)
      · have htarget : IsWord "targetSize" := by decide
        exact env.settings.backend.isOtherWord_reserved htarget
      · have hsize : IsWord "textureSize_" := by decide
        have hrest := isWord_append hsize ((hH.values texture hv).texture htexture)
        have hreserved := env.settings.backend.isOtherWord_reserved hrest
        rwa [← String.append_assoc] at hreserved
    have hadvances := declareUniform_advances hs hword.1 h
    exact ⟨hadvances, (hkeep hadvances).addParameter (Variable.isClosed_of_isOtherWord hword), hstages⟩
  | @sampler _ texture _ _ _ _ _ hv htexture _ _ h =>
    obtain ⟨hadvances, hword⟩ := declareSampler_advances hs ((hH.values texture hv).texture htexture) h
    exact ⟨hadvances, (hkeep hadvances).addName (.of_isOtherWord hword), hstages⟩
  | vertexAttribute _ hvector h =>
    obtain ⟨hadvances, hv⟩ := vertexAttribute_advances henv hs hvector h
    exact ⟨hadvances, (hkeep hadvances).addValue hv, hstages⟩
  | script hname h =>
    have hadvances := defineScript_advances hs h
    exact ⟨hadvances, (hkeep hadvances).addName (.of_isOtherWord (hwords _ hname)), hstages⟩
  | target _ hdecl _ h =>
    obtain rfl := returns_declareOnce.mp h
    rw [hdecl, henv]
    exact hdone (hs.declareTarget _)
  | require hf => exact hdone (hs.require hf)
  | provide hstage h =>
    rw [henv] at h
    rw [hstages _ hstage] at h
    exact ⟨.refl hs, hH.addName (selects_of_provides h), hstages⟩
  | renderState => exact hdone (hs.advances_of_eq rfl (fun stage ↦ by cases stage <;> rfl) rfl rfl)
  | @branches t pins arms name p type _ h _ _ hname hattribute hheads hvalues =>
    obtain ⟨hcaptures, hbranches⟩ := captures_advances hdemand h hs
    have hallocate := hcaptures.trans (hcaptures.closed.allocate p.id type)
    have hmembers := (hcaptures.closed.allocate p.id type).members s.stage
    have hqualified := (qualified_declaration (M := (t.allocate p.id type).HasMember s.stage)
      (b := env.settings.backend) (k := t.nextVariable) hname).append
        (qualified_attribute? (b := env.settings.backend)
          fun line hline ↦ (hattribute line hline).imp_right .inl)
    have harms := qualified_flatMap fun arm harm ↦ Arm.qualified (b := env.settings.backend)
      (k := t.nextVariable) (hkeep hallocate) (hheads arm harm) (hvalues arm harm)
      ((hbranches _ (List.mem_map_of_mem harm)).mono hmembers)
    have hwritten := hallocate.closed.modifyBody (fun _ hb ↦ grows_branches _ _ _ _ hb)
      (by rw [hallocate.stage]; exact hqualified.append harms)
    have hadvances := hallocate.trans hwritten
    exact ⟨hadvances, (hkeep hadvances).addPins pins, hstages⟩
  | @loop t u loop initial? names name scalar start result p declared type value _ _ hinitial _ _
      hnames hstart h _ hnumeric hname hscalar hresult hvalue hattribute =>
    subst hstart
    have hnamed : ∀ c ∈ names, ∃ k, c = temporary k := by
      intro c hc
      rw [hnames, List.mem_map] at hc
      obtain ⟨k, -, rfl⟩ := hc
      exact ⟨k, rfl⟩
    have hallocate := hs.allocate p.id declared
    have hentry := hallocate.trans (hallocate.closed.setNextVariable
      (s.nextVariable + 1 + loop.counters.length))
    have hbegin := hentry.trans hentry.closed.beginCapture
    obtain ⟨hbody, hv, hconditions⟩ := loopBody_advances hdemand h hbegin.closed hnamed
    have hrun := hbegin.trans hbody
    rw [hbegin.stage] at hv hconditions
    have hend := hrun.closed.endCapture hrun.stage
    have hretyped := hend.trans (hend.closed.retype p.id (ValueType.isTexture_of_isNumeric hnumeric))
    have hexit := hrun.trans hretyped
    have hstartValue : Selects (s.HasMember s.stage) start := by
      obtain ⟨v, hmem, -, hcast⟩ | ⟨-, rfl⟩ := hvalue
      · exact Variable.selects_cast env.settings.backend hcast
          (hH.values v (hinitial v hmem).1).selects
      · have hphrase : Phrase (fun _ ↦ False) (env.dialect.scalarLiteral type .zero) :=
          env.settings.backend.phrase_scalarLiteral .zero
        exact hphrase.selects (by simp)
    have hmembers := hretyped.members s.stage
    have hresultValue := (Variable.selects_cast env.settings.backend hresult hv.selects).mono hmembers
    have hcaptured := (hrun.closed.shaders s.stage).captured.mono hmembers
    have htail := qualified_loopTail (k := s.nextVariable) loop.accumulate hresultValue.qualified
      fun condition hc ↦ (hconditions condition hc).mono hmembers
    have hloops : Qualified _ (loopTokens scalar (loop.counters.zip names) _) :=
      qualified_loops (b := env.settings.backend) hscalar
        (fun q hq ↦ hnamed q.2 (List.of_mem_zip hq).2) (hcaptured.append htail)
    have hqualified := ((qualified_definition (b := env.settings.backend) (k := s.nextVariable)
      hname (hstartValue.qualified.mono (hexit.members s.stage))).append
        (qualified_attribute? (b := env.settings.backend)
          fun line hline ↦ .inr (.inr (hattribute line hline)))).append hloops
    have hwritten := hexit.closed.modifyBody
      (fun _ hb ↦ grows_writeLoop (((CodeBuffer.Grows.refl hb).line _).lines _))
      (by rw [hexit.stage]; exact hqualified)
    have hadvances := hexit.trans hwritten
    exact ⟨hadvances, (hkeep hadvances).addPins _, hstages⟩
  | @cross t v p _ hstage h hvector _ =>
    obtain ⟨henter, hsame⟩ := hs.of_eq (t := { s with stage := .vertex })
      (fun stage ↦ by cases stage <;> rfl) rfl rfl
    obtain ⟨hrun, hv⟩ := requireInput_advances hdemand h henter
    obtain ⟨-, hback⟩ := hrun.closed.of_eq (t := { t with stage := .pixel })
      (fun stage ↦ by cases stage <;> rfl) rfl rfl
    have hcarry := hrun.closed.carry p.id hv hvector
    rw [henv]
    have hadvances : s.Advances (t.carry .hlsl p.id v) :=
      ⟨hcarry.stage.trans hstage.symm, fun stage w member hmember ↦ hcarry.members stage w member
        (hback ▸ hrun.members stage w member (hsame ▸ hmember)), hcarry.closed⟩
    exact ⟨hadvances, (hkeep hadvances).addPins _, hstages⟩

end Steps

end ShaderGraph
