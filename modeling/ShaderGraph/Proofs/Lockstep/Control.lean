import ShaderGraph.Proofs.Emission.Arms
import ShaderGraph.Proofs.Emission.Control
import ShaderGraph.Proofs.Lockstep.Inputs

/-!
# Branches, discards and loops in lockstep

Captured bodies run in lockstep, and what is written around them depends on their values and texts only.
The arms of a branch may be evaluated and written in ways of their own that are in lockstep.
-/

namespace ShaderGraph

/-- Loops around related bodies are related. -/
theorem agrees_writeLoop {agree : String → String → Prop} [CodeBuffer.KeepsBlocks agree]
    {b c : CodeBuffer} (h : b.Agrees agree c) {body body' : String} (hbody : agree body body')
    (loop : Emitter.Loop) (names : List String) (scalar : String) (condition? : Option String)
    (assignment : String) :
    (Emitter.writeLoop loop names scalar body condition? assignment b).Agrees agree
      (Emitter.writeLoop loop names scalar body' condition? assignment c) := by
  have hopened (headers : List String) {b c : CodeBuffer} (h : b.Agrees agree c) :
      (headers.foldl (fun b header ↦ (b.line header).openBlock) b).Agrees agree
        (headers.foldl (fun b header ↦ (b.line header).openBlock) c) := by
    induction headers generalizing b c with
    | nil => exact h
    | cons header headers ih => exact ih (h.line header).openBlock
  have hclosed (headers : List String) {b c : CodeBuffer} (h : b.Agrees agree c) :
      (headers.foldl (fun b _ ↦ b.closeBlock) b).Agrees agree
        (headers.foldl (fun b _ ↦ b.closeBlock) c) := by
    induction headers generalizing b c with
    | nil => exact h
    | cons _ headers ih => exact ih h.closeBlock
  have hinner (headers : List String) := (hopened headers h).splice hbody
  unfold Emitter.writeLoop
  cases condition? with
  | none => exact hclosed _ ((hinner _).line _)
  | some condition => exact hclosed _ (((hinner _).line _).line _)

namespace Lock

variable {L : Lock} {running : List NodeId} {demand demand' : Demand} {n m : Node}

structure Branch (L : Lock) (b c : Emitter.Branch) : Prop where
  value : L.Value b.value c.value
  text : L.Body b.text c.text

/-- Forms of a block in which related texts stay related. -/
def Styles (L : Lock) (style style' : ArmStyle) : Prop :=
  L.exact → ∀ b c s t assignment, CodeBuffer.Agrees L.agree b c → L.agree s t →
    (b.arm style s assignment).Agrees L.agree (c.arm style' t assignment)


/-- Both emissions write braces. -/
theorem styles_braces : L.Styles {} {} :=
  fun _ _ _ _ _ assignment hbc hst ↦ ((hbc.openBlock.splice hst).line assignment).closeBlock

/-- Arms that are evaluated and written in lockstep. -/
structure Arms (L : Lock) (running : List NodeId) (arms arms' : String → ArmRun) : Prop where
  demand : ∀ pin, L.Agree running (arms pin).demand (arms' pin).demand
  style : ∀ pin, L.Styles (arms pin).style (arms' pin).style

/-- Arms that are treated alike, and all written between braces. -/
theorem arms_alike (h : L.Agree running demand demand') :
    L.Arms running (fun _ ↦ ⟨demand, {}⟩) (fun _ ↦ ⟨demand', {}⟩) where
  demand _ := h
  style _ := styles_braces

namespace Lockstep

/-! ## Branches -/

theorem branchOutput (hn : L.Twin n m) {bs cs : List Emitter.Branch}
    (h : List.Forall₂ L.Branch bs cs) :
    L.Lockstep running L.Value (Emitter.branchOutput n bs) (Emitter.branchOutput m cs) := by
  have hvalues : List.Forall₂ L.Value (bs.map Emitter.Branch.value) (cs.map Emitter.Branch.value) := by
    induction h with
    | nil => exact .nil
    | cons hbc _ ih => exact .cons hbc.value ih
  refine .bind (commonType hn hvalues) fun t t' ht ↦ ?_
  subst ht
  refine .bind (emitOutput hn _ t) fun v w hv ↦ .bind (typeName hn t) fun e e' he ↦ ?_
  exact .seq (writeLine fun h ↦ by rw [hv.eq h, he h]) (.pure hv)

theorem writeArm (hn : L.Twin n m) {style style' : ArmStyle} (hstyle : L.Styles style style')
    {v w : Variable} {b c : Emitter.Branch} (hv : L.Value v w) (hbc : L.Branch b c) :
    L.Lockstep running Eq (Emitter.writeArm style n v b) (Emitter.writeArm style' m w c) := by
  unfold Emitter.writeArm
  rw [hv.type]
  refine .bind (cast hn hbc.value _) fun e e' he ↦ modifyBody fun h x y hxy ↦ ?_
  rw [hv.eq h, he h]
  exact hstyle h x y _ _ _ hxy (hbc.text h)

theorem writeAttribute {a? b? : Option String} (h : L.Attribute a? b?) :
    L.Lockstep running Eq (Emitter.writeAttribute a?) (Emitter.writeAttribute b?) := by
  refine .of_returns fun s t hst ↦ ⟨(), _, (), _, Emitter.returns_writeAttribute.mpr rfl,
    Emitter.returns_writeAttribute.mpr rfl, rfl, ?_⟩
  unfold EmitState.modifyBody
  rw [hst.stage]
  refine hst.modifyShader s.stage fun hshader ↦ hshader.modifyBody fun hexact b c hbc ↦ ?_
  obtain rfl | ⟨hleft, hright⟩ := h hexact
  · exact hbc.lines _
  · have hb : (a?.toList.foldl CodeBuffer.line b).Agrees L.agree c := by
      cases a? with
      | none => exact hbc
      | some text => exact hbc.skipLeft (hleft text rfl)
    cases b? with
    | none => exact hb
    | some text => exact hb.skipRight (hright text rfl)

theorem writeCaseArms (hn : L.Twin n m) {styles styles' : String → ArmStyle}
    (hstyles : ∀ pin, L.Styles (styles pin) (styles' pin)) {v w : Variable}
    {select select' keyword : String} {bs cs : List (Int32 × Emitter.Branch)} (hv : L.Value v w)
    (hselect : L.Text select select')
    (h : List.Forall₂ (fun p q ↦ q.1 = p.1 ∧ L.Branch p.2 q.2) bs cs) :
    L.Lockstep running Eq (Emitter.writeCaseArms styles n v select keyword bs)
      (Emitter.writeCaseArms styles' m w select' keyword cs) := by
  induction h generalizing keyword with
  | nil => exact .pure rfl
  | cons hbc _ ih =>
    unfold Emitter.writeCaseArms
    rw [hbc.1]
    exact .seq (writeLine fun h ↦ by rw [hselect h])
      (.seq (writeArm hn (hstyles _) hv hbc.2) ih)

theorem captureBranch (hn : L.Twin n m) (hdemand : L.Agree running demand demand') (pin : String) :
    L.Lockstep running L.Branch (Emitter.captureBranch demand n pin)
      (Emitter.captureBranch demand' m pin) :=
  .bind (capture (requireInput hn hdemand pin)) fun _ _ h ↦ .pure ⟨h.1, h.2⟩

section Arms

variable {arms arms' : String → ArmRun} (hn : L.Twin n m) (hdemand : L.Agree running demand demand')
  (harms : L.Arms running arms arms')

include hn hdemand harms

theorem conditionalArms (op : Comparison) (hint : BranchHint) :
    L.Lockstep running Eq (Emitter.conditionalArms demand arms n op hint)
      (Emitter.conditionalArms demand' arms' m op hint) := by
  refine .read_bind ?_
  refine .seq (hoist hdemand (L.graphs.commonOutputs hn _)) ?_
  refine .bind (scalarOperand hn hdemand _) fun a a' ha ↦ ?_
  refine .bind (scalarOperand hn hdemand _) fun b b' hb ↦ ?_
  refine .bind (captureBranch hn (harms.demand _) _) fun c c' hc ↦ ?_
  refine .bind (captureBranch hn (harms.demand _) _) fun d d' hd ↦ ?_
  refine .bind (branchOutput hn (.cons hc (.cons hd .nil))) fun v w hv ↦ ?_
  refine .bind (branchAttribute hint) fun x? y? hxy ↦ .seq (writeAttribute hxy) ?_
  refine .seq (writeLine fun h ↦ by rw [ha h, hb h]) (.seq (writeArm hn (harms.style _) hv hc) ?_)
  exact .seq (writeLine fun _ ↦ rfl) (writeArm hn (harms.style _) hv hd)

theorem switchArms (cases : List Int32) (hint : BranchHint) :
    L.Lockstep running Eq (Emitter.switchArms demand arms n cases hint)
      (Emitter.switchArms demand' arms' m cases hint) := by
  unfold Emitter.switchArms
  split
  · exact .throw fun h ↦ by rw [hn.same h]
  · refine .read_bind ?_
    refine .seq (hoist hdemand (L.graphs.commonOutputs hn _)) ?_
    refine .bind (scalarOperand hn hdemand _) fun a a' ha ↦ ?_
    refine .bind (.mapM (P := Eq) (List.forall₂_same.mpr fun _ _ ↦ rfl) fun pin _ hpin ↦ by
      rw [← hpin]
      exact captureBranch hn (harms.demand pin) pin) fun bs cs hbs ↦ ?_
    refine .bind (captureBranch hn (harms.demand _) _) fun d d' hd ↦ ?_
    refine .bind (branchOutput hn (List.rel_append hbs (.cons hd .nil))) fun v w hv ↦ ?_
    refine .bind (branchAttribute hint) fun x? y? hxy ↦ .seq (writeAttribute hxy) ?_
    refine .seq (writeCaseArms hn harms.style hv ha (zip_related cases hbs)) ?_
    have hempty : cs.isEmpty = bs.isEmpty := by cases hbs <;> rfl
    rw [hempty]
    refine .ite (fun _ ↦ .seq (writeLine fun _ ↦ rfl) ?_) fun _ ↦ ?_ <;>
      exact writeArm hn (harms.style "Default") hv hd

end Arms

variable (hn : L.Twin n m) (hdemand : L.Agree running demand demand')

include hn hdemand

theorem conditional (op : Comparison) (hint : BranchHint) :
    L.Lockstep running Eq (Emitter.conditional demand n op hint)
      (Emitter.conditional demand' m op hint) := by
  rw [Emitter.conditional_eq_conditionalArms, Emitter.conditional_eq_conditionalArms]
  exact conditionalArms hn hdemand (arms_alike hdemand) op hint

theorem switch (cases : List Int32) (hint : BranchHint) :
    L.Lockstep running Eq (Emitter.switch demand n cases hint)
      (Emitter.switch demand' m cases hint) := by
  rw [Emitter.switch_eq_switchArms, Emitter.switch_eq_switchArms]
  exact switchArms hn hdemand (arms_alike hdemand) cases hint

theorem discard (op : Comparison) :
    L.Lockstep running Eq (Emitter.discard demand n op) (Emitter.discard demand' m op) := by
  refine .seq (requireStage hn _) ?_
  refine .bind (scalarOperand hn hdemand _) fun a a' ha ↦ ?_
  refine .bind (scalarOperand hn hdemand _) fun b b' hb ↦ ?_
  refine .seq (writeLine fun h ↦ by rw [ha h, hb h]) ?_
  exact .bind (requireInput hn hdemand _) fun v w hv ↦ forwardOutput hn hv

/-! ## Loops -/

theorem initialValue? :
    L.Lockstep running (Option.Rel L.Value) (Emitter.initialValue? demand n)
      (Emitter.initialValue? demand' m) := by
  unfold Emitter.initialValue?
  rw [hn.isNone_input?]
  refine .ite (fun _ ↦ .pure .none) fun _ ↦ .bind (inputValue? hn hdemand _) fun v? w? h ↦ ?_
  cases h with
  | none => exact .pure .none
  | some hv =>
    dsimp only
    rw [hv.type]
    exact .guard (fun h ↦ by rw [hn.same h]) fun _ ↦ .pure (.some hv)

theorem loopCondition? (isRequired : Bool) :
    L.Lockstep running (Option.Rel L.Text) (Emitter.loopCondition? demand n isRequired)
      (Emitter.loopCondition? demand' m isRequired) := by
  refine .ite (fun _ ↦ .bind (scalarOperand hn hdemand _) fun _ _ h ↦ .pure (.some h)) fun _ ↦ ?_
  rw [hn.isNone_input?]
  refine .ite (fun _ ↦ .pure .none) fun _ ↦ .bind (inputValue? hn hdemand _) fun v? w? h ↦ ?_
  cases h with
  | none => exact .pure .none
  | some hv => exact .bind (cast hn hv _) fun _ _ h ↦ .pure (.some h)

theorem loopBody (loop : Emitter.Loop) (names : List String) :
    L.Lockstep running (fun a b ↦ L.Value a.1 b.1 ∧ Option.Rel L.Text a.2 b.2)
      (Emitter.loopBody demand n loop names) (Emitter.loopBody demand' m loop names) := by
  refine .seq (.forIn (P := Eq) (List.forall₂_same.mpr fun _ _ ↦ rfl) fun p q hpq ↦ ?_) ?_
  · rw [← hpq]
    exact .seq (bindOutput hn _ (.refl _)) (.pure ⟨rfl, rfl⟩)
  · refine .bind (loopCondition? hn hdemand _) fun c? d? hc ↦ ?_
    exact .bind (requireInput hn hdemand _) fun v w hv ↦ .pure ⟨hv, hc⟩

omit hdemand in
/-- The text of a loop around its body. -/
theorem writtenLoop (running : List NodeId) (loop : Emitter.Loop) (names : List String)
    (operator : String) {t : ValueType} {o other : Variable}
    {start start' result value body body' : String} {condition? condition'? : Option String}
    (hnumeric : t.isNumeric) (ho : L.Value o other) (hstart : L.Text start start')
    (hresult : L.Text result value) (hbody : L.Body body body')
    (hcondition : Option.Rel L.Text condition? condition'?) :
    L.Lockstep running Eq
      (do
        EmitM.assign n ⟨o.name, t⟩ start
        Emitter.writeAttribute (← EmitM.unrollAttribute)
        let scalar ← EmitM.typeName n .scalar
        EmitM.modifyBody (Emitter.writeLoop loop names scalar body condition?
          s!"{o.name} {operator} {result};"))
      (do
        EmitM.assign m ⟨other.name, t⟩ start'
        Emitter.writeAttribute (← EmitM.unrollAttribute)
        let scalar ← EmitM.typeName m .scalar
        EmitM.modifyBody (Emitter.writeLoop loop names scalar body' condition'?
          s!"{other.name} {operator} {value};")) := by
  have houtput : L.Value ⟨o.name, t⟩ ⟨other.name, t⟩ :=
    ⟨rfl, fun h ↦ by cases t <;> simp_all [ValueType.isNumeric, ValueType.isVector,
      ValueType.isTexture], ho.exact⟩
  refine .seq (assign hn houtput hstart) (.bind unrollAttribute fun a? b? hab ↦ ?_)
  refine .seq (writeAttribute hab) (.bind (typeName hn _) fun e e' he ↦ modifyBody fun h b c hbc ↦ ?_)
  have hsame : condition'? = condition? := by
    cases hcondition with
    | none => rfl
    | some hc => rw [hc h]
  rw [ho.exact h, he h, hresult h, hsame]
  exact agrees_writeLoop hbc (hbody h) ..

theorem emitLoop (loop : Emitter.Loop) :
    L.Lockstep running Eq (Emitter.emitLoop demand n loop) (Emitter.emitLoop demand' m loop) := by
  refine .read_bind ?_
  refine .seq (hoist hdemand (L.graphs.frontier hn _)) ?_
  refine .bind (initialValue? hn hdemand) fun v? w? hinitial ↦ ?_
  have hdeclared : (w?.map Variable.type).getD .void = (v?.map Variable.type).getD .void := by
    cases hinitial with
    | none => rfl
    | some hv => exact hv.type
  dsimp only
  rw [hdeclared]
  refine .bind (emitOutput hn _ _) fun o o' ho ↦ ?_
  refine .bind (.mapM (P := Eq) (R := Eq) (List.forall₂_same.mpr fun _ _ ↦ rfl) fun _ _ _ ↦
    freshName) fun names names' hnames ↦ ?_
  obtain rfl : names = names' := List.forall₂_eq_eq_eq ▸ hnames
  refine .bind (capture (loopBody hn hdemand loop names)) fun body body' hbody ↦ ?_
  obtain ⟨⟨value, condition?⟩, text⟩ := body
  obtain ⟨⟨value', condition'?⟩, text'⟩ := body'
  obtain ⟨⟨hvalue, hcondition⟩, htext⟩ := hbody
  dsimp only at hvalue hcondition htext ⊢
  rw [hvalue.type]
  generalize (if (v?.map Variable.type).getD .void = .void then value.type
    else (v?.map Variable.type).getD .void) = t
  refine .guard (fun h ↦ ?_) fun hnumeric ↦ .seq (retypeOutput hn _ (by simpa using hnumeric)) ?_
  · rw [hn.same h]
  refine .bind (cast hn hvalue t) fun result result' hresult ↦ ?_
  have hwrite (start start' : String) (hstart : L.Text start start') :=
    writtenLoop hn running loop names (if loop.accumulate then "+=" else "=")
      (by simpa using hnumeric) ho hstart hresult htext hcondition
  cases hinitial with
  | none => exact .dialect_bind (hwrite _ _ fun h ↦ by rw [L.dialect_eq h])
  | some hv =>
    cases hacc : loop.accumulate with
    | true =>
      rw [hacc] at hwrite
      exact .dialect_bind (hwrite _ _ fun h ↦ by rw [L.dialect_eq h])
    | false =>
      rw [hacc] at hwrite
      exact .bind (cast hn hv t) hwrite

theorem repeatWhile :
    L.Lockstep running Eq (Emitter.repeatWhile demand n) (Emitter.repeatWhile demand' m) := by
  refine .dialect_bind (.within hn (fun h ↦ ?_) (fun h ↦ by rw [L.dialect_eq h])
    (emitLoop hn hdemand _))
  by_contra hleft
  exact absurd (L.supports.unboundedLoops (by simpa using hleft)) (by simpa using h)

end Lockstep

end Lock

end ShaderGraph
