import ShaderGraph.Emission.Control
import ShaderGraph.Proofs.Emission.Inputs

/-!
# Steps of the emitters of branches, discards and loops
-/

namespace ShaderGraph

namespace EmitState

theorem modifyBody_modifyBody (s : EmitState) (f g : CodeBuffer → CodeBuffer) :
    (s.modifyBody f).modifyBody g = s.modifyBody fun b ↦ g (f b) := by
  obtain ⟨stage, vertex, pixel⟩ := s
  cases stage
  · simp only [modifyBody, modifyShader, StageShader.modifyBody]
    cases vertex.captures <;> rfl
  · simp only [modifyBody, modifyShader, StageShader.modifyBody]
    cases pixel.captures <;> rfl

theorem modifyBody_id (s : EmitState) : (s.modifyBody fun b ↦ b) = s := by
  obtain ⟨stage, vertex, pixel⟩ := s
  cases stage
  · obtain ⟨_, _, _, _, _, _, _, captures⟩ := vertex
    cases captures <;> rfl
  · obtain ⟨_, _, _, _, _, _, _, captures⟩ := pixel
    cases captures <;> rfl

end EmitState

namespace Emitter

open EmitM

variable {env : EmitEnv} {demand : Demand} {n : Node} {s t : EmitState} {H : Held}

/-! ## Branches -/

theorem returns_branchOutput {branches : List Branch} {output : Variable} :
    Returns env (branchOutput n branches) s output t ↔
      ∃ type p name, ValueType.commonOf (branches.map fun b ↦ b.value.type) = .ok type ∧
        n.output? "Output" = some p ∧ env.dialect.typeName? type = some name ∧
        output = ⟨temporary s.nextVariable, type⟩ ∧
        t = (s.allocate p.id type).write s!"{name} {temporary s.nextVariable};" := by
  simp only [branchOutput, returns_bind, returns_commonType, returns_emitOutput, returns_typeName,
    returns_writeLine, returns_pure, List.map_map]
  constructor
  · rintro ⟨type, s₁, ⟨htype, rfl⟩, output', s₂, ⟨p, hp, rfl, rfl⟩, name, s₃, ⟨hname, rfl⟩, ⟨⟩, s₄,
      rfl, rfl, rfl⟩
    exact ⟨type, p, name, htype, hp, hname, rfl, rfl⟩
  · rintro ⟨type, p, name, htype, hp, hname, rfl, rfl⟩
    exact ⟨type, s, ⟨htype, rfl⟩, _, _, ⟨p, hp, rfl, rfl⟩, name, _, ⟨hname, rfl⟩, ⟨⟩, _, rfl, rfl,
      rfl⟩

/-- A branch is written as an arm, and the line that heads it may have been written before. -/
theorem returns_writeBranch (head : List String) {output : Variable} {branch : Branch}
    {f : CodeBuffer → CodeBuffer}
    (h : Returns env (writeBranch n output branch)
      (s.modifyBody fun b ↦ head.foldl CodeBuffer.line (f b)) () t) :
    ∃ value, branch.value.cast output.type env.dialect = .ok value ∧
      t = s.modifyBody fun b ↦ Arm.write output.name (f b) ⟨head, branch, value⟩ := by
  simp only [writeBranch, returns_bind, returns_cast, returns_modifyBody] at h
  obtain ⟨value, s₁, ⟨hvalue, rfl⟩, rfl⟩ := h
  exact ⟨value, hvalue, EmitState.modifyBody_modifyBody _ _ _⟩

theorem returns_writeAttribute {attribute? : Option String} {a : Unit} :
    Returns env (writeAttribute attribute?) s a t ↔
      t = s.modifyBody fun b ↦ attribute?.toList.foldl CodeBuffer.line b := by
  cases attribute? with
  | none => simp [writeAttribute, returns_pure, EmitState.modifyBody_id]
  | some line => exact returns_writeLine

theorem returns_branchAttribute {hint : BranchHint} {attribute? : Option String}
    (h : Returns env (branchAttribute hint) s attribute? t) :
    t = s ∧ ∀ line ∈ attribute?, env.dialect.flattenAttribute? = some line ∨
      env.dialect.branchAttribute? = some line := by
  cases hint <;> simp only [branchAttribute, returns_bind, returns_dialect, returns_pure] at h <;>
    obtain ⟨d, s₁, ⟨rfl, rfl⟩, rfl, rfl⟩ := h
  · exact ⟨rfl, by simp⟩
  · exact ⟨rfl, fun line hline ↦ .inl hline⟩
  · exact ⟨rfl, fun line hline ↦ .inr hline⟩

theorem returns_branchAttribute_auto {attribute? : Option String}
    (h : Returns env (branchAttribute .auto) s attribute? t) : attribute? = none := by
  simp only [branchAttribute, returns_bind, returns_dialect, returns_pure] at h
  obtain ⟨d, s₁, -, h, -⟩ := h
  exact h

theorem forms_condition {op : Comparison} {m x y : String} (hm : Leading m) (hx : H.Forms x)
    (hy : H.Forms y) : H.Forms s!"{m}{x} {op.token} {y}" :=
  .test hm hx (by cases op <;> decide) hy

theorem conditional_runs {op : Comparison} {hint : BranchHint}
    (h : Returns env (conditional demand n op hint) s () t) :
    RunsReading env demand n ["Input", "Reference", "CaseTrue", "CaseFalse"] s t := by
  simp only [conditional, returns_bind, returns_read, returns_branchOutput,
    returns_writeAttribute, returns_writeLine] at h
  obtain ⟨_, s₁, ⟨rfl, rfl⟩, _, s₂, hhoist, input, s₃, hinput, reference, s₄, hreference, whenTrue,
    s₅, htrue, whenFalse, s₆, hfalse, output, s₇, houtput, attribute?, s₈, hattr, h⟩ := h
  obtain ⟨type, p, name, htype, hp, hname, rfl, rfl⟩ := houtput
  obtain ⟨rfl, hattribute⟩ := returns_branchAttribute hattr
  obtain ⟨_, s₉, rfl, _, s₁₀, rfl, _, s₁₁, hfirst, _, s₁₂, rfl, hsecond⟩ := h
  have hhoisted : Steps env demand n {} s₁ {} s₂ := steps_hoist (fun o ho ↦ .inl ho) hhoist
  obtain ⟨v, hv⟩ := steps_scalarOperand (n := n) (H := {}) hinput
  obtain ⟨w, hw⟩ := steps_scalarOperand (n := n)
    (H := (({} : Held).read "Input" (some v)).addOperand input .scalar) hreference
  rw [EmitState.write, EmitState.write, EmitState.modifyBody_modifyBody,
    EmitState.modifyBody_modifyBody] at hfirst
  obtain ⟨left, hleft, rfl⟩ := returns_writeBranch [_] hfirst
  rw [EmitState.write, EmitState.modifyBody_modifyBody] at hsecond
  obtain ⟨right, hright, rfl⟩ := returns_writeBranch [_] hsecond
  refine ⟨_, ((hhoisted.trans hv).trans hw).snoc (.branches ["CaseTrue", "CaseFalse"]
    [⟨[_], whenTrue, left⟩, ⟨["else"], whenFalse, right⟩] ?_ htype hp hname hattribute
    ?_ ?_ (.inl (ValueType.commonOf_isNumeric htype)) (.inl ⟨[_, "else"], rfl, _, [], rfl, ?_,
      by simp⟩)), by simp⟩
  · exact returns_mapM_cons.mpr ⟨whenTrue, s₅, [whenFalse], htrue, returns_mapM_cons.mpr
      ⟨whenFalse, s₆, [], hfalse, returns_mapM_nil.mpr ⟨rfl, rfl⟩, rfl⟩, rfl⟩
  · simp only [List.forall_mem_cons, List.not_mem_nil, false_implies, implies_true, and_true]
    refine ⟨.inr ⟨_, rfl, .inr ⟨_, ")", rfl, ?_, by decide, by decide⟩⟩, .inr ⟨_, rfl, .inl rfl⟩⟩
    exact forms_condition (m := "if (") (by decide)
      (Held.forms_operand (e := input) (t := .scalar) (by simp))
      (Held.forms_operand (e := reference) (t := .scalar) (by simp))
  · simpa using ⟨hleft, hright⟩
  · have hopen : "if (" = "if" ++ " (" := by decide
    refine ⟨s!"{input} {op.token} {reference}", ?_⟩
    simp only [toString_text, hopen, String.append_assoc]

/-- The tests of a switch are arms that are headed by conditions on one operand. -/
theorem returns_writeCases {output : Variable} {select keyword : String}
    {cases : List (Int32 × Branch)} {f : CodeBuffer → CodeBuffer}
    (hkeyword : keyword = "if" ∨ keyword = "else if") (hselect : H.Forms select)
    (h : Returns env (writeCases n output select keyword cases) (s.modifyBody f) () t) :
    ∃ arms : List Arm, arms.map Arm.branch = cases.map Prod.snd ∧
      (∀ arm ∈ arms, arm.head = [] ∨ ∃ line, arm.head = [line] ∧ Arm.IsHead H line) ∧
      (∀ arm ∈ arms, arm.branch.value.cast output.type env.dialect = .ok arm.value) ∧
      t = s.modifyBody (fun b ↦ arms.foldl (Arm.write output.name) (f b)) ∧
      ∃ heads : List String, arms.map Arm.head = heads.map ([·]) ∧
        (∀ head ∈ heads.head?, Opens keyword head) ∧
        ∀ head ∈ heads.tail, Opens "else if" head := by
  induction cases generalizing f keyword with
  | nil =>
    simp only [writeCases, returns_pure] at h
    obtain ⟨-, rfl⟩ := h
    exact ⟨[], rfl, by simp, by simp, rfl, [], rfl, by simp, by simp⟩
  | cons c cases ih =>
    obtain ⟨value, branch⟩ := c
    simp only [writeCases, returns_bind, returns_writeLine] at h
    obtain ⟨⟨⟩, s₁, rfl, ⟨⟩, s₂, hbranch, h⟩ := h
    rw [EmitState.write, EmitState.modifyBody_modifyBody] at hbranch
    obtain ⟨text, htext, rfl⟩ := returns_writeBranch [_] hbranch
    obtain ⟨arms, hbranches, hheads, hvalues, rfl, heads, hsome, hfirst, hrest⟩ := ih (.inr rfl) h
    refine ⟨⟨[s!"{keyword} (int({select}) == {value.toInt})"], branch, text⟩ :: arms,
      by simp [hbranches], ?_, ?_, by simp only [List.foldl_cons], _ :: heads,
      congrArg ([_] :: ·) hsome, ?_, ?_⟩
    · simp only [List.forall_mem_cons]
      refine ⟨.inr ⟨_, rfl, .inr ⟨_, ")", rfl, ?_, by decide, by decide⟩⟩, hheads⟩
      refine .between (.after (m := s!"{keyword} (int(") ?_ hselect) (m := ") == ") (by decide)
        (.fixed (phrase_toString_int _))
      rcases hkeyword with rfl | rfl <;> decide
    · simpa using ⟨htext, hvalues⟩
    · rw [List.head?_cons]
      rintro _ ⟨⟩
      have hopen : " (int(" = " (" ++ "int(" := by decide
      refine ⟨s!"int({select}) == {value.toInt}", ?_⟩
      simp only [toString_text, hopen, String.append_assoc]
    · intro head hhead
      cases heads with
      | nil => cases hhead
      | cons second more =>
        rcases List.mem_cons.mp hhead with rfl | hhead
        · exact hfirst _ rfl
        · exact hrest head hhead

theorem returns_mapM_snoc {α β : Type} {f : α → EmitM β} {as : List α} {a : α} {bs : List β}
    {b : β} {u : EmitState} (has : Returns env (as.mapM f) s bs t) (ha : Returns env (f a) t b u) :
    Returns env ((as ++ [a]).mapM f) s (bs ++ [b]) u := by
  induction as generalizing s bs with
  | nil =>
    obtain ⟨rfl, rfl⟩ := returns_mapM_nil.mp has
    exact returns_mapM_cons.mpr ⟨b, u, [], ha, returns_mapM_nil.mpr ⟨rfl, rfl⟩, rfl⟩
  | cons a' as ih =>
    obtain ⟨b', s', bs', ha', has', rfl⟩ := returns_mapM_cons.mp has
    exact returns_mapM_cons.mpr ⟨b', s', bs' ++ [b], ha', ih has', rfl⟩

theorem length_of_returns_mapM {α β : Type} {f : α → EmitM β} {as : List α} {bs : List β}
    (h : Returns env (as.mapM f) s bs t) : bs.length = as.length := by
  induction as generalizing s bs with
  | nil =>
    obtain ⟨rfl, -⟩ := returns_mapM_nil.mp h
    rfl
  | cons a as ih =>
    obtain ⟨b, s', bs', -, has, rfl⟩ := returns_mapM_cons.mp h
    simp [ih has]

theorem switch_runs {cases : List Int32} {hint : BranchHint} (hkind : n.kind = .switch cases hint)
    (h : Returns env (switch demand n cases hint) s () t) :
    RunsReading env demand n ("Select" :: "Default" :: cases.map switchCasePin) s t := by
  simp only [switch] at h
  split at h
  · simp only [returns_bind] at h
    obtain ⟨_, _, h, -⟩ := h
    exact absurd h returns_throw
  · simp only [returns_bind, returns_read, returns_branchOutput, returns_writeAttribute] at h
    obtain ⟨_, s₁, ⟨rfl, rfl⟩, _, s₂, hhoist, select, s₃, hselect, branches, s₄, hbranches,
      fallback, s₅, hfallback, output, s₆, houtput, attribute?, s₇, hattr, h⟩ := h
    obtain ⟨type, p, name, htype, hp, hname, rfl, rfl⟩ := houtput
    obtain ⟨rfl, hattribute⟩ := returns_branchAttribute hattr
    obtain ⟨_, s₈, rfl, _, s₉, hcases, h⟩ := h
    have hhoisted : Steps env demand n {} s₁ {} s₂ := steps_hoist (fun o ho ↦ .inl ho) hhoist
    obtain ⟨v, hv⟩ := steps_scalarOperand (n := n) (H := {}) hselect
    have hlength : branches.length = cases.length := by
      simpa using length_of_returns_mapM hbranches
    rw [EmitState.write, EmitState.modifyBody_modifyBody] at hcases
    obtain ⟨arms, harms, hheads, hvalues, rfl, heads, hsome, hfirst, hothers⟩ :=
      returns_writeCases (.inl rfl)
      (Held.forms_operand (H := (({} : Held).read "Select" (some v)).addOperand select .scalar)
        (t := .scalar) (by simp)) hcases
    rw [List.map_snd_zip (by omega)] at harms
    -- Without cases the fallback has no head.
    obtain ⟨head, value, hhead, hvalue, rfl⟩ : ∃ (head : List String) (value : String),
        head = (if branches.isEmpty then [] else ["else"]) ∧
        fallback.value.cast type env.dialect = .ok value ∧
        t = (s₅.allocate p.id type).modifyBody fun b ↦
          (arms ++ [Arm.mk head fallback value]).foldl (Arm.write (temporary s₅.nextVariable))
            (attribute?.toList.foldl CodeBuffer.line
              (b.line s!"{name} {temporary s₅.nextVariable};")) := by
      simp only [List.foldl_append, List.foldl_cons, List.foldl_nil]
      split at h
      · next hcase =>
        simp only [returns_bind, returns_writeLine] at h
        obtain ⟨⟨⟩, s₁₀, rfl, h⟩ := h
        rw [EmitState.write, EmitState.modifyBody_modifyBody] at h
        obtain ⟨value, hvalue, rfl⟩ := returns_writeBranch [_] h
        exact ⟨["else"], value, (if_neg (by simpa using hcase)).symm, hvalue, rfl⟩
      · next hcase =>
        obtain ⟨value, hvalue, rfl⟩ := returns_writeBranch [] h
        exact ⟨[], value, (if_pos (by simpa using hcase)).symm, hvalue, rfl⟩
    refine ⟨_, (hhoisted.trans hv).snoc (.branches (cases.map switchCasePin ++ ["Default"]) _
      ?_ ?_ hp hname hattribute ?_ ?_ ?_ ?_), by simp⟩
    · rw [List.map_append, harms]
      exact returns_mapM_snoc hbranches hfallback
    · rw [← htype, ← harms]
      simp [List.map_map, Function.comp_def]
    · intro arm harm
      rcases List.mem_append.mp harm with harm | harm
      · exact hheads arm harm
      · rw [List.mem_singleton.mp harm, hhead]
        split
        · exact .inl rfl
        · exact .inr ⟨_, rfl, .inl rfl⟩
    · intro arm harm
      rcases List.mem_append.mp harm with harm | harm
      · exact hvalues arm harm
      · rw [List.mem_singleton.mp harm]
        exact hvalue
    · -- With a case there are two branches at least, and only numbers have a common type.
      obtain _ | ⟨first, rest⟩ := branches
      · obtain rfl := List.length_eq_zero_iff.mp hlength.symm
        exact .inr ⟨rfl, hint, hkind⟩
      · obtain ⟨second, more, hmore⟩ := List.exists_cons_of_ne_nil (l := rest.map (·.value.type) ++
          [fallback.value.type]) (by simp)
        refine .inl (ValueType.commonOf_isNumeric
          (show ValueType.commonOf (first.value.type :: second :: more) = .ok _ from ?_))
        rw [← htype, ← hmore]
        simp
    · cases branches with
      | nil =>
        obtain rfl := List.length_eq_zero_iff.mp hlength.symm
        obtain rfl := List.map_eq_nil_iff.mp harms
        refine .inr ⟨hint, hkind, by simp [hhead], fun hauto ↦ ?_⟩
        rw [hauto] at hattr
        exact returns_branchAttribute_auto hattr
      | cons branch more =>
        cases heads with
        | nil => simp [List.map_eq_nil_iff.mp hsome] at harms
        | cons first rest =>
          exact .inl ⟨first :: (rest ++ ["else"]), by simp [hsome, hhead], first, rest, rfl,
            hfirst first rfl, hothers⟩

theorem discard_runs {op : Comparison} (hkind : n.kind = .discard op)
    (h : Returns env (discard demand n op) s () t) :
    RunsReading env demand n ["Input", "Reference", "Pass"] s t := by
  simp only [discard, returns_bind, returns_writeLine] at h
  obtain ⟨⟨⟩, s₁, hstage, input, s₂, hinput, reference, s₃, hreference, ⟨⟩, s₄, rfl, pass, s₅, hpass,
    h⟩ := h
  obtain ⟨v, hv⟩ := steps_scalarOperand (n := n) (H := ({} : Held).addStage .pixel) hinput
  obtain ⟨w, hw⟩ := steps_scalarOperand (n := n) hreference
  refine ⟨_, .snoc (.snoc (.snoc ((Steps.single (step_requireStage hstage)).trans (hv.trans hw))
    (.statement ⟨_, ")) discard;", rfl, ?_, by decide, by decide⟩
      ⟨s!"if (!({input} {op.token} {reference})) discard", ?_⟩)) (step_requireInput hpass))
    (step_forwardOutput h (by simp) fun _ ↦ by rw [hkind]; rfl), by simp⟩
  · exact forms_condition (m := "if (!(") (by decide)
      (Held.forms_operand (e := input) (t := .scalar) (by simp))
      (Held.forms_operand (e := reference) (t := .scalar) (by simp))
  · have hend : ")) discard;" = ")) discard" ++ ";" := by decide
    rw [hend, ← String.append_assoc]
    rfl

/-! ## Loops -/

theorem returns_freshNames {α : Type} {as : List α} {names : List String} :
    Returns env (as.mapM fun _ ↦ freshName) s names t →
      names = (List.range' s.nextVariable as.length).map temporary ∧
        t = { s with nextVariable := s.nextVariable + as.length } := by
  intro h
  induction as generalizing s names with
  | nil =>
    obtain ⟨rfl, rfl⟩ := returns_mapM_nil.mp h
    exact ⟨rfl, rfl⟩
  | cons a as ih =>
    obtain ⟨name, s', names', hname, hnames, rfl⟩ := returns_mapM_cons.mp h
    obtain ⟨rfl, rfl⟩ := returns_freshName.mp hname
    obtain ⟨rfl, rfl⟩ := ih hnames
    refine ⟨by simp [List.range'_succ], ?_⟩
    simp only [List.length_cons]
    congr 1
    omega

/-- The pins that a loop reads if the node has them. -/
def optionalPins (n : Node) : List String :=
  ["Initial", "Condition"].filter fun pin ↦ (n.input? pin).isSome

theorem steps_initialValue? {initial? : Option Variable}
    (h : Returns env (initialValue? demand n) s initial? t) :
    ∃ K, Steps env demand n H s K t ∧ (∀ v ∈ initial?, v ∈ K.values ∧ v.type.isNumeric) ∧
      ((n.input? "Initial").isSome → "Initial" ∈ K.pins) := by
  simp only [initialValue?] at h
  by_cases hpin : (n.input? "Initial").isNone
  · simp only [hpin, if_true, returns_pure] at h
    obtain ⟨rfl, rfl⟩ := h
    exact ⟨H, .refl, by simp, fun hsome ↦ by
      rw [Option.isNone_iff_eq_none.mp hpin] at hsome
      cases hsome⟩
  · simp only [hpin, Bool.false_eq_true, if_false, returns_bind] at h
    obtain ⟨value?, s₁, hread, h⟩ := h
    have hsame : t = s₁ ∧ initial? = value? ∧ ∀ v ∈ initial?, v.type.isNumeric := by
      cases value? with
      | none =>
        obtain ⟨rfl, rfl⟩ := returns_pure.mp h
        simp
      | some value =>
        by_cases hnumeric : value.type.isNumeric
        · simp only [hnumeric, Bool.not_true, Bool.false_eq_true, if_false] at h
          obtain ⟨rfl, rfl⟩ := returns_pure.mp h
          simp [hnumeric]
        · simp [hnumeric, returns_map, returns_throw] at h
    obtain ⟨rfl, rfl, hnumeric⟩ := hsame
    refine ⟨_, .single (.read hread), fun v hv ↦ ⟨?_, hnumeric v hv⟩, by simp⟩
    simp only [Held.read_values, List.mem_append]
    exact .inl (by simpa using hv)

theorem returns_unrollAttribute {attribute? : Option String}
    (h : Returns env unrollAttribute s attribute? t) :
    t = s ∧ ∀ line ∈ attribute?, env.dialect.unrollAttribute? = some line := by
  simp only [unrollAttribute, returns_bind, returns_dialect, returns_read] at h
  obtain ⟨d, s₁, ⟨rfl, rfl⟩, _, s₂, ⟨rfl, rfl⟩, h⟩ := h
  split at h
  · obtain ⟨rfl, rfl⟩ := returns_pure.mp h
    exact ⟨rfl, fun line hline ↦ hline⟩
  · obtain ⟨rfl, rfl⟩ := returns_pure.mp h
    exact ⟨rfl, by simp⟩
  · simp only [returns_bind, returns_currentStage, returns_pure] at h
    obtain ⟨stage, s₃, ⟨rfl, rfl⟩, rfl, rfl⟩ := h
    refine ⟨rfl, fun line hline ↦ ?_⟩
    split at hline
    · exact hline
    · cases hline

/-- The text of a loop is written once its type and its start are known. -/
theorem returns_writtenLoop {loop : Loop} {output : String} {type : ValueType}
    {start result body : String} {names : List String} {condition? : Option String}
    (h : Returns env (do
      assign n ⟨output, type⟩ start
      writeAttribute (← unrollAttribute)
      let scalar ← typeName n .scalar
      modifyBody (writeLoop loop names scalar body condition?
        s!"{output} {loopOperator loop.accumulate} {result};")) s () t) :
    ∃ (name scalar : String) (attribute? : Option String), env.dialect.typeName? type = some name ∧
      env.dialect.typeName? .scalar = some scalar ∧
      (∀ line ∈ attribute?, env.dialect.unrollAttribute? = some line) ∧
      t = s.modifyBody fun b ↦ writeLoop loop names scalar body condition?
        s!"{output} {loopOperator loop.accumulate} {result};"
        (attribute?.toList.foldl CodeBuffer.line (b.line s!"{name} {output} = {start};")) := by
  simp only [returns_bind, returns_assign, returns_writeAttribute, returns_typeName,
    returns_modifyBody] at h
  obtain ⟨⟨⟩, s₁, ⟨name, hname, rfl⟩, attribute?, s₂, hattr, ⟨⟩, s₃, rfl, scalar, s₄,
    ⟨hscalar, rfl⟩, rfl⟩ := h
  obtain ⟨rfl, hattribute⟩ := returns_unrollAttribute hattr
  refine ⟨name, scalar, attribute?, hname, hscalar, hattribute, ?_⟩
  rw [EmitState.write, EmitState.modifyBody_modifyBody, EmitState.modifyBody_modifyBody]

/-- The condition of a loop is the value of an input as a scalar, if the loop has one. -/
theorem loopCondition?_cases {isRequired : Bool} {condition? : Option String}
    (h : Returns env (loopCondition? demand n isRequired) s condition? t) :
    (isRequired = false ∧ (n.input? "Condition").isNone ∧ condition? = none ∧ t = s) ∨
      ∃ value?, Returns env (inputValue? demand n "Condition") s value? t ∧
        ∀ condition ∈ condition?, ∃ v ∈ value?, v.cast .scalar env.dialect = .ok condition := by
  unfold loopCondition? at h
  simp only [returns_bind, returns_ite] at h
  obtain ⟨-, h⟩ | ⟨hrequired, h⟩ := h
  · simp only [scalarOperand, returns_bind, returns_cast, returns_pure] at h
    obtain ⟨text, _, ⟨v, _, hinput, htext, rfl⟩, rfl, rfl⟩ := h
    exact .inr ⟨some v, returns_requireInput.mp hinput, by simpa using htext⟩
  · obtain ⟨hnone, h⟩ | ⟨-, h⟩ := h
    · obtain ⟨rfl, rfl⟩ := returns_pure.mp h
      exact .inl ⟨by simpa using hrequired, hnone, rfl, rfl⟩
    · obtain ⟨value?, s', hinput, h⟩ := h
      cases value? with
      | none =>
        obtain ⟨rfl, rfl⟩ := returns_pure.mp h
        exact .inr ⟨none, hinput, by simp⟩
      | some v =>
        simp only [returns_bind, returns_cast, returns_pure] at h
        obtain ⟨text, _, ⟨htext, rfl⟩, rfl, rfl⟩ := h
        exact .inr ⟨some v, hinput, by simpa using htext⟩

/-- The body of a loop binds the counters, and then evaluates the condition and the value. -/
theorem loopBody_cases {loop : Loop} {names : List String} {value : Variable}
    {condition? : Option String}
    (h : Returns env (loopBody demand n loop names) s (value, condition?) t) :
    ∃ (bindings : List Binding) (u : EmitState),
      (∀ b ∈ bindings, (∃ p ∈ n.outputs, b.1 = p.id) ∧ ∃ name ∈ names, b.2 = ⟨name, .scalar⟩) ∧
      Returns env (loopCondition? demand n loop.conditionRequired)
        (bindings.foldl (fun s b ↦ s.bindPin b.1 b.2) s) condition? u ∧
      Returns env (inputValue? demand n "Input") u (some value) t := by
  simp only [loopBody, returns_bind, returns_pure, Prod.mk.injEq] at h
  obtain ⟨⟨⟩, s₁, hbind, c?, s₂, hcondition, v, s₃, hvalue, ⟨rfl, rfl⟩, rfl⟩ := h
  obtain ⟨bindings, hbindings, rfl⟩ : ∃ bindings : List Binding,
      (∀ b ∈ bindings, (∃ p ∈ n.outputs, b.1 = p.id) ∧ ∃ name ∈ names, b.2 = ⟨name, .scalar⟩) ∧
        s₁ = bindings.foldl (fun s b ↦ s.bindPin b.1 b.2) s := by
    have hnames : ∀ p ∈ loop.counters.zip names, p.2 ∈ names := fun p hp ↦ (List.of_mem_zip hp).2
    generalize loop.counters.zip names = ps at hbind hnames
    clear hcondition
    induction ps generalizing s with
    | nil =>
      obtain rfl := returns_forIn_nil.mp hbind
      exact ⟨[], by simp, rfl⟩
    | cons p ps ih =>
      obtain ⟨u, hfirst, hrest⟩ := (returns_forIn_cons
        (g := fun p ↦ bindOutput n p.1.pin ⟨p.2, .scalar⟩ >>= fun _ ↦ pure ⟨⟩)
        (fun p ↦ by simp)).mp hbind
      simp only [returns_bind, returns_bindOutput, returns_pure] at hfirst
      obtain ⟨_, _, ⟨pin, hpin, rfl, rfl⟩, -, rfl⟩ := hfirst
      obtain ⟨bindings, hall, rfl⟩ := ih hrest fun q hq ↦ hnames q (List.mem_cons_of_mem p hq)
      refine ⟨(pin.id, ⟨p.2, .scalar⟩) :: bindings, List.forall_mem_cons.mpr ⟨⟨?_, ?_⟩, hall⟩, rfl⟩
      · exact ⟨pin, List.mem_of_find?_eq_some hpin, rfl⟩
      · exact ⟨p.2, hnames p List.mem_cons_self, rfl⟩
  exact ⟨bindings, s₂, hbindings, hcondition, returns_requireInput.mp hvalue⟩

/-- A run of a loop: what is hoisted and the initial value, the body with the output bound, and the
text of the loop around the captured body. -/
inductive LoopRun (env : EmitEnv) (demand : Demand) (n : Node) (loop : Loop) (s t : EmitState) :
    Prop
  | intro {s₁ s₂ entry u : EmitState} {initial? : Option Variable} {names : List String}
    {name scalar start result : String} {p : Pin} {declared type : ValueType} {value : Variable}
    {condition? attribute? : Option String}
    (hhoist : Returns env (hoist demand (env.graph.frontier n ["Input", "Condition"])) s () s₁)
    (hinitial : Returns env (initialValue? demand n) s₁ initial? s₂)
    (hdeclared : declared = (initial?.map Variable.type).getD .void)
    (hp : n.output? "Output" = some p)
    (hnames : names = (List.range' (s₂.nextVariable + 1) loop.counters.length).map temporary)
    (hentry : entry = { s₂.allocate p.id declared with
      nextVariable := s₂.nextVariable + 1 + loop.counters.length })
    (hbody : Returns env (loopBody demand n loop names) entry.beginCapture (value, condition?) u)
    (htype : type = if declared = .void then value.type else declared)
    (hnumeric : type.isNumeric) (hname : env.dialect.typeName? type = some name)
    (hscalar : env.dialect.typeName? .scalar = some scalar)
    (hresult : value.cast type env.dialect = .ok result)
    (hstart : (∃ v ∈ initial?, loop.accumulate = false ∧ v.cast type env.dialect = .ok start) ∨
      ((initial? = none ∨ loop.accumulate = true) ∧ start = env.dialect.scalarLiteral type .zero))
    (hattribute : ∀ line ∈ attribute?, env.dialect.unrollAttribute? = some line)
    (hexit : t = ((u.endCapture s₂.stage).retype p.id type).modifyBody fun b ↦
      writeLoop loop names scalar (u.capturedText s₂.stage) condition?
        s!"{temporary s₂.nextVariable} {loopOperator loop.accumulate} {result};"
        (attribute?.toList.foldl CodeBuffer.line
          (b.line s!"{name} {temporary s₂.nextVariable} = {start};"))) :
    LoopRun env demand n loop s t

theorem loopRun_of_returns {loop : Loop} (h : Returns env (emitLoop demand n loop) s () t) :
    LoopRun env demand n loop s t := by
  simp only [emitLoop, returns_bind, returns_read, returns_emitOutput] at h
  obtain ⟨_, s₁, ⟨rfl, rfl⟩, ⟨⟩, s₂, hhoist, initial?, s₃, hinitial, output, s₄,
    ⟨p, hp, rfl, rfl⟩, names, s₅, hnames, ⟨⟨value, condition?⟩, body⟩, s₆, hcapture, h⟩ := h
  obtain ⟨hnames, hs₅⟩ := returns_freshNames hnames
  obtain ⟨u, hbody, rfl, rfl⟩ := returns_capture.mp hcapture
  generalize hdeclared : (initial?.map Variable.type).getD .void = declared at h hs₅
  generalize htype : (if declared = .void then value.type else declared) = type at h
  by_cases hnumeric : type.isNumeric
  · simp only [hnumeric, Bool.not_true, Bool.false_eq_true, if_false, returns_bind,
      returns_retypeOutput, returns_cast] at h
    obtain ⟨⟨⟩, s₇, ⟨p', hp', rfl⟩, result, s₈, ⟨hresult, rfl⟩, h⟩ := h
    obtain rfl : p = p' := Option.some.inj (hp.symm.trans hp')
    have hfinish : ∃ start, ((∃ v ∈ initial?, loop.accumulate = false ∧
          v.cast type env.dialect = .ok start) ∨
        ((initial? = none ∨ loop.accumulate = true) ∧
          start = env.dialect.scalarLiteral type .zero)) ∧
        Returns env (do
          assign n ⟨temporary s₃.nextVariable, type⟩ start
          writeAttribute (← unrollAttribute)
          let scalar ← typeName n .scalar
          modifyBody (writeLoop loop names scalar (u.capturedText s₅.stage) condition?
            s!"{temporary s₃.nextVariable} {loopOperator loop.accumulate} {result};"))
          ((u.endCapture s₅.stage).retype p.id type) () t := by
      have hzero {k : String → EmitM Unit}
          {s : EmitState} (h : Returns env (do
            let d ← dialect
            let start ← pure (d.scalarLiteral type .zero)
            k start) s () t) : Returns env (k (env.dialect.scalarLiteral type .zero)) s () t := by
        simp only [returns_bind, returns_dialect, returns_pure] at h
        obtain ⟨d, s₉, ⟨rfl, rfl⟩, start, s₁₀, ⟨rfl, rfl⟩, h⟩ := h
        exact h
      cases hinit : initial? with
      | none =>
        rw [hinit] at h
        exact ⟨_, .inr ⟨.inl rfl, rfl⟩, hzero h⟩
      | some v =>
        cases hacc : loop.accumulate with
        | true =>
          rw [hinit, hacc] at h
          exact ⟨_, .inr ⟨.inr rfl, rfl⟩, hzero h⟩
        | false =>
          rw [hinit, hacc] at h
          obtain ⟨start, s₉, hrun, h⟩ := returns_bind.mp h
          obtain ⟨hcast, rfl⟩ := returns_cast.mp hrun
          exact ⟨start, .inl ⟨v, rfl, rfl, hcast⟩, h⟩
    obtain ⟨start, hstart, h⟩ := hfinish
    obtain ⟨name, scalar, attribute?, hname, hscalar, hattribute, hexit⟩ := returns_writtenLoop h
    have hstage : s₅.stage = s₃.stage := by
      rw [hs₅, EmitState.stage_allocate]
    rw [EmitState.nextVariable_allocate] at hs₅ hnames
    rw [hstage] at hexit
    exact .intro hhoist hinitial hdeclared.symm hp hnames hs₅ hbody htype.symm hnumeric hname hscalar
      hresult hstart hattribute hexit
  · simp [hnumeric, returns_bind, returns_throw] at h

theorem emitLoop_runs {loop : Loop} (hcounters : loop.counters ≠ [])
    (h : Returns env (emitLoop demand n loop) s () t) :
    RunsReading env demand n ("Input" :: optionalPins n) s t := by
  cases loopRun_of_returns h with
  | @intro s₁ s₂ _ _ _ _ _ _ _ _ p _ type value _ _ hhoist hinitial hdeclared hp hnames hentry hbody
    htype hnumeric hname hscalar hresult hstart hattribute hexit =>
    have hhoisted : Steps env demand n {} s {} s₁ := steps_hoist (fun o ho ↦ .inr ho) hhoist
    obtain ⟨H, hread, hinitial, hpins⟩ := steps_initialValue? (H := {}) hinitial
    rw [hexit]
    refine ⟨_, (hhoisted.trans hread).snoc (.loop hinitial hdeclared hp hnames hentry hbody htype
      hnumeric hname hscalar hresult hstart hattribute hcounters), ?_⟩
    intro pin hpin
    simp only [optionalPins, List.mem_cons, List.mem_filter, List.not_mem_nil, or_false] at hpin
    simp only [Held.addPins_pins, List.mem_append, List.mem_cons, List.not_mem_nil, or_false]
    obtain rfl | ⟨rfl | rfl, hsome⟩ := hpin
    · exact .inl (.inl rfl)
    · exact .inr (hpins hsome)
    · exact .inl (.inr rfl)

theorem repeatWhile_runs (h : Returns env (repeatWhile demand n) s () t) :
    RunsReading env demand n ("Input" :: optionalPins n) s t := by
  simp only [repeatWhile, returns_bind, returns_dialect] at h
  obtain ⟨d, s₁, ⟨rfl, rfl⟩, h⟩ := h
  by_cases hloops : env.dialect.unboundedLoops
  · simp only [hloops, Bool.not_true, Bool.false_eq_true, if_false] at h
    exact emitLoop_runs (by simp) h
  · simp [hloops, returns_bind, returns_unsupported] at h

end Emitter

end ShaderGraph
