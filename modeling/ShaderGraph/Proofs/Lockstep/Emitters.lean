import ShaderGraph.Proofs.Lockstep.Inputs

/-!
# Emitters in lockstep

The emitters of arithmetic, of vectors and matrices, of resources and scripts, and of what stages read
and write, keep in lockstep.
-/

namespace ShaderGraph

/-! ## Arithmetic -/

namespace Lock

namespace Lockstep

variable {L : Lock} {running : List NodeId} {demand demand' : Demand} {n m : Node}

/-- The components of a constant are the same in all dialects. -/
theorem constant (hn : L.Twin n m) (components : List Binary32) :
    L.Lockstep running Eq (Emitter.constant n components) (Emitter.constant m components) := by
  refine .dialect_bind (.bind (emitOutput hn _ _) fun v w hv ↦ ?_)
  refine .bind (typeName hn _) fun type type' htype ↦ .writeLine fun h ↦ ?_
  rw [hv.eq h, htype h, L.dialect_eq h]

variable (hn : L.Twin n m) (hdemand : L.Agree running demand demand')

include hn hdemand

/-! ### Functions of one value -/

theorem intrinsic (f : Intrinsic) :
    L.Lockstep running Eq (Emitter.intrinsic demand n f) (Emitter.intrinsic demand' m f) :=
  .bind (vectorInput hn hdemand _) fun v w hv ↦ .dialect_bind <| assignOutput hn hv.1.type fun h ↦ by
    rw [hv.1.eq h, L.dialect_eq h]

theorem negate : L.Lockstep running Eq (Emitter.negate demand n) (Emitter.negate demand' m) := by
  refine .bind (requireInput hn hdemand _) fun v w hv ↦ ?_
  rw [hv.type]
  exact .guard (fun h ↦ by rw [hn.same h]) fun _ ↦ assignOutput hn rfl fun h ↦ by rw [hv.eq h]

theorem round : L.Lockstep running Eq (Emitter.round demand n) (Emitter.round demand' m) :=
  .bind (vectorInput hn hdemand _) fun v w hv ↦ .dialect_bind <| assignOutput hn hv.1.type fun h ↦ by
    rw [hv.1.eq h, L.dialect_eq h]

theorem truncate :
    L.Lockstep running Eq (Emitter.truncate demand n) (Emitter.truncate demand' m) :=
  .bind (vectorInput hn hdemand _) fun v w hv ↦ .dialect_bind <| assignOutput hn hv.1.type fun h ↦ by
    rw [hv.1.eq h, L.dialect_eq h]

theorem log (base : LogBase) :
    L.Lockstep running Eq (Emitter.log demand n base) (Emitter.log demand' m base) :=
  .bind (vectorInput hn hdemand _) fun v w hv ↦ .dialect_bind <| assignOutput hn hv.1.type fun h ↦ by
    rw [hv.1.eq h, L.dialect_eq h]

theorem length : L.Lockstep running Eq (Emitter.length demand n) (Emitter.length demand' m) :=
  .bind (vectorInput hn hdemand _) fun v w hv ↦ assignOutput hn rfl fun h ↦ by rw [hv.1.eq h]

theorem clamp (low high : Binary32) :
    L.Lockstep running Eq (Emitter.clamp demand n low high) (Emitter.clamp demand' m low high) :=
  .bind (vectorInput hn hdemand _) fun v w hv ↦ assignOutput hn hv.1.type fun h ↦ by rw [hv.1.eq h]

theorem derivative (axis : DerivativeAxis) :
    L.Lockstep running Eq (Emitter.derivative demand n axis)
      (Emitter.derivative demand' m axis) := by
  refine .seq (requireStage hn _) (.bind (vectorInput hn hdemand _) fun v w hv ↦ ?_)
  exact .seq (require _) <| .dialect_bind <| assignOutput hn hv.1.type fun h ↦ by
    rw [hv.1.eq h, L.dialect_eq h]

theorem angle (f : AngleFunction) :
    L.Lockstep running Eq (Emitter.angle demand n f) (Emitter.angle demand' m f) :=
  .bind (scalarInput hn hdemand _) fun v w hv ↦ assignOutput hn rfl fun h ↦ by rw [hv.1.eq h]

theorem arcusTan :
    L.Lockstep running Eq (Emitter.arcusTan demand n) (Emitter.arcusTan demand' m) := by
  refine .bind (requireInput hn hdemand _) fun v w hv ↦ ?_
  rw [hv.type]
  exact .guard (fun h ↦ by rw [hn.same h]) fun _ ↦ .dialect_bind <| assignOutput hn rfl fun h ↦ by
    rw [hv.eq h, L.dialect_eq h]

/-! ### Functions of several values -/

theorem arithmetic (op : ArithmeticOperator) :
    L.Lockstep running Eq (Emitter.arithmetic demand n op) (Emitter.arithmetic demand' m op) := by
  refine .bind (requireInput hn hdemand _) fun a a' ha ↦ ?_
  refine .bind (requireInput hn hdemand _) fun b b' hb ↦ ?_
  refine .bind (commonType hn (.cons ha (.cons hb .nil))) fun t t' ht ↦ ?_
  subst ht
  refine .bind (cast hn ha t) fun left left' hleft ↦ .bind (cast hn hb t) fun right right' hright ↦ ?_
  exact .dialect_bind <| assignOutput hn rfl fun h ↦ by rw [hleft h, hright h, L.dialect_eq h]

theorem vectorFunction (f : VectorFunction) :
    L.Lockstep running Eq (Emitter.vectorFunction demand n f)
      (Emitter.vectorFunction demand' m f) := by
  refine .bind (vectorInput hn hdemand _) fun a a' ha ↦ ?_
  refine .bind (vectorInput hn hdemand _) fun b b' hb ↦ ?_
  refine .bind (commonType hn (.cons ha.1 (.cons hb.1 .nil))) fun t t' ht ↦ ?_
  subst ht
  refine .bind (cast hn ha.1 t) fun left left' hleft ↦ .bind (cast hn hb.1 t) fun right right' hright ↦ ?_
  exact assignOutput hn rfl fun h ↦ by rw [hleft h, hright h]

theorem mulAdd : L.Lockstep running Eq (Emitter.mulAdd demand n) (Emitter.mulAdd demand' m) := by
  refine .bind (vectorInput hn hdemand _) fun a a' ha ↦ ?_
  refine .bind (vectorInput hn hdemand _) fun b b' hb ↦ ?_
  refine .bind (vectorInput hn hdemand _) fun c c' hc ↦ ?_
  refine .bind (commonType hn (.cons ha.1 (.cons hb.1 (.cons hc.1 .nil)))) fun t t' ht ↦ ?_
  subst ht
  refine .bind (cast hn ha.1 t) fun x x' hx ↦ .bind (cast hn hb.1 t) fun y y' hy ↦ ?_
  exact .bind (cast hn hc.1 t) fun z z' hz ↦ assignOutput hn rfl fun h ↦ by rw [hx h, hy h, hz h]

theorem lerp : L.Lockstep running Eq (Emitter.lerp demand n) (Emitter.lerp demand' m) := by
  refine .bind (vectorInput hn hdemand _) fun a a' ha ↦ ?_
  refine .bind (vectorInput hn hdemand _) fun b b' hb ↦ ?_
  refine .bind (vectorInput hn hdemand _) fun blend blend' hblend ↦ ?_
  refine .bind (commonType hn (.cons ha.1 (.cons hb.1 .nil))) fun t t' ht ↦ ?_
  subst ht
  rw [hblend.1.type]
  have hmix (w z : String) (hweight : L.Text w z) : L.Lockstep running Eq
      (do
        let x ← EmitM.cast n a t
        let y ← EmitM.cast n b t
        EmitM.assignOutput n t s!"{(← EmitM.dialect).lerp}({x}, {y}, {w})")
      (do
        let x ← EmitM.cast m a' t
        let y ← EmitM.cast m b' t
        EmitM.assignOutput m t s!"{(← EmitM.dialect).lerp}({x}, {y}, {z})") :=
    .bind (cast hn ha.1 t) fun x x' hx ↦ .bind (cast hn hb.1 t) fun y y' hy ↦
      .dialect_bind <| assignOutput hn rfl fun h ↦ by rw [hx h, hy h, hweight h, L.dialect_eq h]
  exact .ite (fun _ ↦ hmix _ _ fun h ↦ by rw [hblend.1.eq h]) fun _ ↦ .bind (cast hn hblend.1 t) hmix

theorem power : L.Lockstep running Eq (Emitter.power demand n) (Emitter.power demand' m) := by
  refine .bind (vectorInput hn hdemand _) fun a a' ha ↦ ?_
  refine .bind (vectorInput hn hdemand _) fun b b' hb ↦ ?_
  refine .bind (commonType hn (.cons ha.1 (.cons hb.1 .nil))) fun t t' ht ↦ ?_
  subst ht
  refine .dialect_bind ?_
  refine .bind (cast hn hb.1 t) fun x x' hx ↦ .bind (cast hn ha.1 t) fun y y' hy ↦ ?_
  exact assignOutput hn rfl fun h ↦ by rw [hx h, hy h, L.dialect_eq h]

theorem polynomial :
    L.Lockstep running Eq (Emitter.polynomial demand n) (Emitter.polynomial demand' m) := by
  refine .bind (vectorInput hn hdemand _) fun x x' hx ↦ ?_
  refine .bind (vectorInput hn hdemand _) fun c c' hc ↦ .dialect_bind ?_
  rw [hc.1.type]
  split
  · exact .throw fun h ↦ by rw [hn.same h]
  · exact assignOutput hn hx.1.type fun h ↦ by rw [hx.1.eq h, hc.1.eq h, L.dialect_eq h]
  · exact assignOutput hn hx.1.type fun h ↦ by rw [hx.1.eq h, hc.1.eq h]

end Lockstep

end Lock

/-! ## Vectors and matrices -/

namespace Lock

variable {L : Lock} {running : List NodeId} {demand demand' : Demand} {n m : Node}

/-- Values in the same places are as many. -/
theorem presentWidth_related {vs ws : List (Option Variable)}
    (h : List.Forall₂ (Option.Rel L.Value) vs ws) :
    Emitter.presentWidth ws = Emitter.presentWidth vs := by
  induction h with
  | nil => rfl
  | cons hvw _ ih =>
    unfold Emitter.presentWidth
    rw [ih]
    cases hvw <;> rfl

theorem liftExcept_mapM {α β : Type} (f : α → Except CompileError β) (as : List α) :
    (liftExcept (as.mapM f) : EmitM (List β)) = as.mapM fun a ↦ liftExcept (f a) := by
  induction as with
  | nil => rfl
  | cons a as ih =>
    rw [List.mapM_cons, List.mapM_cons, ← ih]
    cases f a with
    | error e => rfl
    | ok b => cases as.mapM f <;> rfl

namespace Lockstep

theorem swizzleComponent (hn : L.Twin n m) {pattern : String} {v w : Variable} (hv : L.Value v w)
    (c : Char) :
    L.Lockstep running L.Text (liftExcept (Emitter.swizzleComponent n pattern v c))
      (liftExcept (Emitter.swizzleComponent m pattern w c)) := by
  unfold Emitter.swizzleComponent
  rw [hv.type]
  by_cases hconstant : c = '0' ∨ c = '1'
  · rw [if_pos hconstant, if_pos hconstant]
    exact .pure fun _ ↦ rfl
  · rw [if_neg hconstant, if_neg hconstant]
    cases Emitter.componentIndex? c with
    | none => exact .throw fun h ↦ by rw [hn.same h]
    | some index =>
      dsimp only
      split_ifs with hindex hscalar
      · exact .throw fun h ↦ by rw [hn.same h]
      · exact .pure hv.exact
      · exact .pure fun h ↦ by rw [hv.eq h]

theorem mixedComponent (hn : L.Twin n m) {pin : String} {v? w? : Option Variable}
    (h : Option.Rel L.Value v? w?) :
    L.Lockstep running L.Text (Emitter.mixedComponent n pin v?)
      (Emitter.mixedComponent m pin w?) := by
  cases h with
  | none => exact .pure fun _ ↦ rfl
  | some hv =>
    unfold Emitter.mixedComponent
    dsimp only
    rw [hv.type]
    exact .ite (fun _ ↦ cast hn hv _) fun _ ↦ .throw fun h ↦ by rw [hn.same h]

variable (hn : L.Twin n m) (hdemand : L.Agree running demand demand')

include hn hdemand

theorem dot : L.Lockstep running Eq (Emitter.dot demand n) (Emitter.dot demand' m) := by
  refine .bind (vectorInput hn hdemand _) fun a a' ha ↦ ?_
  refine .bind (vectorInput hn hdemand _) fun b b' hb ↦ ?_
  refine .bind (commonType hn (.cons ha.1 (.cons hb.1 .nil))) fun t t' ht ↦ ?_
  subst ht
  refine .bind (cast hn ha.1 t) fun left left' hleft ↦ .bind (cast hn hb.1 t) fun right right' hright ↦ ?_
  exact assignOutput hn rfl fun h ↦ by rw [hleft h, hright h]

theorem cross : L.Lockstep running Eq (Emitter.cross demand n) (Emitter.cross demand' m) := by
  refine .bind (vectorInput hn hdemand _) fun a a' ha ↦ ?_
  refine .bind (vectorInput hn hdemand _) fun b b' hb ↦ ?_
  refine .bind (cast hn ha.1 _) fun left left' hleft ↦ .bind (cast hn hb.1 _) fun right right' hright ↦ ?_
  exact assignOutput hn rfl fun h ↦ by rw [hleft h, hright h]

theorem reflect : L.Lockstep running Eq (Emitter.reflect demand n) (Emitter.reflect demand' m) := by
  refine .bind (vectorInput hn hdemand _) fun a a' ha ↦ ?_
  refine .bind (vectorInput hn hdemand _) fun b b' hb ↦ ?_
  rw [hb.1.type]
  refine .bind (cast hn ha.1 _) fun axis axis' haxis ↦ assignOutput hn rfl fun h ↦ ?_
  rw [hb.1.eq h, haxis h]

theorem swizzle (pattern : String) :
    L.Lockstep running Eq (Emitter.swizzle demand n pattern)
      (Emitter.swizzle demand' m pattern) := by
  refine .bind (vectorInput hn hdemand _) fun v w hv ↦ ?_
  dsimp only
  split
  · next t ht =>
    rw [liftExcept_mapM, liftExcept_mapM]
    refine .bind (.mapM (P := Eq) (List.forall₂_same.mpr fun _ _ ↦ rfl) fun c _ hc ↦ by
      rw [← hc]
      exact swizzleComponent hn hv.1 c) fun components components' hcomponents ↦ ?_
    rw [hv.1.type]
    refine .ite (fun _ ↦ forwardOutput hn hv.1) fun _ ↦ .ite (fun _ ↦ .ite (fun _ ↦ ?_) fun _ ↦ ?_)
      fun _ ↦ ?_
    · exact assignOutput hn rfl fun h ↦ by rw [texts_eq hcomponents h]
    · exact .dialect_bind <| assignOutput hn rfl fun h ↦ by rw [texts_eq hcomponents h, L.dialect_eq h]
    · exact assignOutput hn rfl fun h ↦ by rw [hv.1.eq h]
  · exact .throw fun h ↦ by rw [hn.same h]

theorem mixIn : L.Lockstep running Eq (Emitter.mixIn demand n) (Emitter.mixIn demand' m) := by
  refine .bind (.mapM (List.forall₂_same.mpr fun _ _ ↦ rfl) fun pin _ hpin ↦ by
    rw [← hpin]
    exact inputValue? hn hdemand pin) fun vs ws hvs ↦ ?_
  rw [presentWidth_related hvs]
  refine .guard (fun h ↦ by rw [hn.same h]) fun _ ↦ ?_
  refine .bind (.mapM (R := L.Text) (List.forall₂_take _ (zip_related Emitter.componentPins hvs))
    fun p q hpq ↦ ?_) fun cs ds hcs ↦ ?_
  · rw [hpq.1]
    exact mixedComponent hn hpq.2
  · exact .ite (fun _ ↦ assignOutput hn rfl fun h ↦ by rw [texts_eq hcs h]) fun _ ↦
      .dialect_bind <| assignOutput hn rfl fun h ↦ by rw [texts_eq hcs h, L.dialect_eq h]

theorem mixOut : L.Lockstep running Eq (Emitter.mixOut demand n) (Emitter.mixOut demand' m) := by
  refine .bind (vectorInput hn hdemand _) fun v w hv ↦ ?_
  rw [hv.1.type]
  refine .ite (fun _ ↦ .seq (bindOutput hn _ hv.1) (.pure rfl)) fun _ ↦ .seq (.forIn (P := Eq)
    (List.forall₂_same.mpr fun _ _ ↦ rfl) fun p q hpq ↦ ?_) (.pure rfl)
  rw [← hpq]
  exact .seq (bindOutput hn _ ⟨rfl, fun h ↦ (by cases h), fun h ↦ by rw [hv.1.eq h]⟩)
    (.pure ⟨rfl, rfl⟩)

theorem matrixIn :
    L.Lockstep running Eq (Emitter.matrixIn demand n) (Emitter.matrixIn demand' m) := by
  refine .bind (.mapM (R := L.Text) (List.forall₂_same.mpr fun _ _ ↦ rfl) fun pin _ hpin ↦ ?_)
    fun axes axes' haxes ↦ .dialect_bind <| assignOutput hn rfl fun h ↦ ?_
  · rw [← hpin]
    exact .bind (vectorInput hn hdemand pin) fun v w hv ↦ cast hn hv.1 _
  · rw [texts_eq haxes h, L.dialect_eq h]

theorem matrixOut :
    L.Lockstep running Eq (Emitter.matrixOut demand n) (Emitter.matrixOut demand' m) := by
  refine .bind (matrixInput hn hdemand _) fun v w hv ↦ .seq (.forIn (P := Eq)
    (List.forall₂_same.mpr fun _ _ ↦ rfl) fun p q hpq ↦ ?_) (.pure rfl)
  rw [← hpq]
  refine .bind (emitOutput hn _ _) fun o o' ho ↦ .seq (assign hn ho fun h ↦ ?_) (.pure ⟨rfl, rfl⟩)
  rw [hv.1.eq h]

theorem transform :
    L.Lockstep running Eq (Emitter.transform demand n) (Emitter.transform demand' m) := by
  refine .bind (vectorInput hn hdemand _) fun v w hv ↦ ?_
  refine .bind (matrixInput hn hdemand _) fun m m' hm ↦ ?_
  refine .bind (cast hn hv.1 _) fun e e' he ↦ .dialect_bind <| assignOutput hn rfl fun h ↦ ?_
  rw [hm.1.eq h, he h, L.dialect_eq h]

theorem transpose :
    L.Lockstep running Eq (Emitter.transpose demand n) (Emitter.transpose demand' m) := by
  refine .dialect_bind ?_
  obtain ⟨f, f', hf, hf', hsame⟩ | ⟨hf, hf'⟩ := L.feature_cases L.supports.transpose
    fun h ↦ by rw [L.dialect_eq h]
  · rw [hf, hf']
    refine .bind (matrixInput hn hdemand _) fun v w hv ↦ .seq (require _) (assignOutput hn rfl fun h ↦ ?_)
    rw [hv.1.eq h, hsame h]
  · rw [hf]
    exact .lacking hn fun h ↦ by rw [hf' h]

end Lockstep

end Lock

/-! ## Uniforms, samplers and scripts

The names that the compiler makes up for uniforms and samplers differ in the reserved prefix. Those that
the author gives to parameters are the same in both emissions, and must not look like made-up ones.
-/

namespace Lock

variable {L : Lock} {running : List NodeId} {demand demand' : Demand} {n m : Node}

/-- What two dialects sample alike. -/
structure Sampling (L : Lock) (s t : Emitter.Sampling) : Prop where
  coordinate : t.coordinate = s.coordinate
  result : t.result = s.result
  exact : L.exact → t = s

/-- The pins of a subroutine whose names do not matter, or hold no commas. -/
def PlainPins (L : Lock) (pins : List ScriptPin) : Prop :=
  L.right.dialect.types = L.left.dialect.types ∨ ∀ pin ∈ pins, pin.IsPlain

theorem parameter_input (d : Dialect) (pin : ScriptPin) :
    d.parameter false pin = d.typeNameOrVoid pin.type ++ " " ++ pin.name := by
  simp [Dialect.parameter]

namespace Lockstep

/-! ### Uniforms -/

theorem uniform (hn : L.Twin n m) {parameter : String} (hname : L.Name parameter parameter)
    (t : ValueType) :
    L.Lockstep running Eq (Emitter.uniform n parameter t) (Emitter.uniform m parameter t) :=
  .guard (fun h ↦ by rw [hn.same h]) fun _ ↦
    .seq (declareUniform hn hname t none) (forwardOutput hn (.refl _))

/-- A uniform whose name the compiler makes up. -/
theorem value_reserved (base : String) {t : ValueType} (ht : t.isTexture = false) :
    L.Value ⟨L.left.dialect.reservedPrefix ++ base, t⟩ ⟨L.right.dialect.reservedPrefix ++ base, t⟩ :=
  ⟨rfl, fun h ↦ by simp [ht] at h, fun h ↦ by rw [L.dialect_eq h]⟩

variable (hn : L.Twin n m)

include hn

theorem targetSize : L.Lockstep running Eq (Emitter.targetSize n) (Emitter.targetSize m) :=
  .dialect_bind (.seq (declareUniform hn (.prefixed _) _ _)
    (.seq (require _) (forwardOutput hn (value_reserved _ rfl))))

theorem sampling {t t' : SampleTemplates} (h : t.SupportedBy t') (hexact : L.exact → t' = t)
    (state : SamplerState) :
    L.Lockstep running L.Sampling (Emitter.sampling n t state) (Emitter.sampling m t' state) := by
  refine .ite (fun _ ↦ ?_) fun _ ↦ ?_
  · cases hc : t.sampleCompare? with
    | none => exact .lacking hn fun h ↦ by rw [hexact h, hc]
    | some c =>
      obtain ⟨c', hc', hcoordinate⟩ := h.compare c hc
      rw [hc']
      refine .pure ⟨hcoordinate, rfl, fun h ↦ ?_⟩
      rw [hexact h, hc] at hc'
      rw [Option.some.inj hc']
  · refine .bind currentStage fun stage _ hstage ↦ ?_
    subst hstage
    have htemplate := L.feature_cases
      (x := if stage = .vertex || state.ignoreMips then t.sampleLod?
        else if !state.mipBias.sameNumber .zero then t.sampleBias? else some t.sample)
      (y := if stage = .vertex || state.ignoreMips then t'.sampleLod?
        else if !state.mipBias.sameNumber .zero then t'.sampleBias? else some t'.sample)
      (by split_ifs <;> [exact h.lod; exact h.bias; exact id]) fun h ↦ by rw [hexact h]
    dsimp only
    obtain ⟨a, b, ha, hb, hab⟩ | ⟨ha, hb⟩ := htemplate
    · rw [ha, hb]
      exact .pure ⟨h.coordinate, rfl, fun h' ↦ by rw [hexact h', hab h']⟩
    · rw [ha]
      exact .lacking hn fun h ↦ by rw [hb h]

section Demands

variable (hdemand : L.Agree running demand demand')

include hdemand

theorem subscript (parameter : String) (size : UInt32) :
    L.Lockstep running L.Text (Emitter.subscript demand n parameter size)
      (Emitter.subscript demand' m parameter size) := by
  refine .read_bind ?_
  rw [L.graphs.constantIndex? hn]
  split
  · exact .ite (fun _ ↦ .pure fun _ ↦ rfl) fun _ ↦ .throw fun h ↦ by rw [hn.same h]
  · exact .bind (scalarOperand hn hdemand _) fun e e' he ↦ .pure fun h ↦ by rw [he h]

theorem indexedUniform {parameter : String} (hname : L.Name parameter parameter) (t : ValueType)
    (size : UInt32) :
    L.Lockstep running Eq (Emitter.indexedUniform demand n parameter t size)
      (Emitter.indexedUniform demand' m parameter t size) := by
  refine .guard (fun h ↦ by rw [hn.same h]) fun _ ↦ .guard (fun h ↦ by rw [hn.same h]) fun _ ↦ ?_
  refine .seq (declareUniform hn hname t _) (.bind (subscript hn hdemand _ _) fun e e' he ↦ ?_)
  exact assignOutput hn rfl fun h ↦ by rw [he h]

theorem textureSize :
    L.Lockstep running Eq (Emitter.textureSize demand n) (Emitter.textureSize demand' m) := by
  refine .bind (textureInput hn hdemand _) fun v w hv ↦ .dialect_bind ?_
  rw [hv.1.texture hv.2]
  have hname := Name.prefixed (L := L) ("textureSize_" ++ v.name)
  have hvalue := value_reserved (L := L) ("textureSize_" ++ v.name) (t := .vec4) rfl
  simp only [← String.append_assoc] at hname hvalue
  exact .seq (declareUniform hn hname _ _) (forwardOutput hn hvalue)

theorem sampler (state : SamplerState) :
    L.Lockstep running Eq (Emitter.sampler demand n state) (Emitter.sampler demand' m state) := by
  refine .bind (textureInput hn hdemand _) fun v w hv ↦ .dialect_bind ?_
  rw [hv.1.type]
  cases htemplates : L.left.dialect.sampleTemplates? v.type with
  | none =>
    exact .lacking hn fun h ↦ by rw [L.dialect_eq h, htemplates]
  | some t =>
    obtain ⟨t', ht', hsupported⟩ := L.supports.templates _ _ htemplates
    rw [ht']
    refine .bind (sampling hn hsupported (fun h ↦ ?_) state) fun x y hxy ↦ ?_
    · rw [L.dialect_eq h, htemplates] at ht'
      exact (Option.some.inj ht').symm
    · refine .bind (requireInput hn hdemand _) fun c c' hc ↦ ?_
      rw [hxy.coordinate, hxy.result]
      refine .bind (cast hn hc _) fun e e' he ↦ ?_
      refine .bind (declareSampler hv.1 hv.2 state fun h ↦ by rw [hxy.exact h]) fun s s' hs ↦ ?_
      exact assignOutput hn rfl fun h ↦ by rw [hxy.exact h, hv.1.eq h, hs h, he h]

end Demands

/-! ### Scripts -/

theorem scriptPinType (pin : ScriptPin) :
    L.Lockstep running (fun a b ↦ pin.type ≠ .void ∧ a = L.left.dialect.typeNameOrVoid pin.type ∧
        b = L.right.dialect.typeNameOrVoid pin.type)
      (Emitter.scriptPinType n pin) (Emitter.scriptPinType m pin) := by
  refine .ite (fun _ ↦ .bind (Q := fun _ _ ↦ False) (.unsupported hn _) fun _ _ h ↦ h.elim) fun _ ↦
    .dialect_bind ?_
  cases pin.type
  case void => exact .throw fun h ↦ by rw [hn.same h]
  all_goals exact .pure ⟨by simp, rfl, rfl⟩

omit hn in
/-- The texts of parameters, whose types are types of values. -/
theorem scriptParameters {f g : ScriptPin → EmitM String} (isOutput : Bool) (pins : List ScriptPin)
    (hfg : ∀ pin, L.Lockstep running (fun a b ↦ pin.type ≠ .void ∧
        a = L.left.dialect.parameter isOutput pin ∧ b = L.right.dialect.parameter isOutput pin)
      (f pin) (g pin)) :
    L.Lockstep running (fun as bs ↦ (∀ pin ∈ pins, pin.type ≠ .void) ∧
        as = pins.map (L.left.dialect.parameter isOutput) ∧
        bs = pins.map (L.right.dialect.parameter isOutput))
      (pins.mapM f) (pins.mapM g) := by
  induction pins with
  | nil => exact .pure ⟨by simp, rfl, rfl⟩
  | cons pin pins ih =>
    rw [List.mapM_cons, List.mapM_cons]
    refine .bind (hfg pin) fun a b ⟨htype, ha, hb⟩ ↦ .bind ih fun as bs ⟨htypes, has, hbs⟩ ↦ ?_
    exact .pure ⟨List.forall_mem_cons.mpr ⟨htype, htypes⟩, by rw [ha, has, List.map_cons],
      by rw [hb, hbs, List.map_cons]⟩

theorem scriptSignature {inputs outputs : List ScriptPin} (name : String)
    (hpins : L.PlainPins (inputs ++ outputs)) :
    L.Lockstep running (L.Signature name) (Emitter.scriptSignature n name inputs outputs)
      (Emitter.scriptSignature m name inputs outputs) := by
  refine .bind (scriptParameters false inputs fun pin ↦ .bind (scriptPinType hn pin)
    fun a b ⟨htype, ha, hb⟩ ↦ .pure ⟨htype, ?_, ?_⟩) fun ins ins' ⟨hins, hin, hin'⟩ ↦ ?_
  · rw [ha, parameter_input]
    rfl
  · rw [hb, parameter_input]
    rfl
  refine .bind (scriptParameters true outputs fun pin ↦ .bind (scriptPinType hn pin)
    fun a b ⟨htype, ha, hb⟩ ↦ .pure ⟨htype, ?_, ?_⟩) fun outs outs' ⟨houts, hout, hout'⟩ ↦ ?_
  · rw [ha]
    rfl
  · rw [hb]
    rfl
  subst hin hin' hout hout'
  refine .pure ?_
  rcases hpins with htypes | hplain
  · exact .inl ⟨signature_of_types htypes _ _ _, htypes⟩
  · refine .inr ⟨inputs, outputs, fun pin hpin ↦ ⟨hplain pin hpin, ?_⟩, rfl, rfl⟩
    exact (List.mem_append.mp hpin).elim (hins pin) (houts pin)

theorem script (hdemand : L.Agree running demand demand') {name body : String}
    {inputs outputs : List ScriptPin} (hpins : L.PlainPins (inputs ++ outputs)) :
    L.Lockstep running Eq (Emitter.script demand n name body inputs outputs)
      (Emitter.script demand' m name body inputs outputs) := by
  refine .bind (scriptSignature hn name hpins) fun a b hab ↦ .seq (defineScript hn hab body) ?_
  refine .bind (.mapM (P := Eq) (R := L.Text) (List.forall₂_same.mpr fun _ _ ↦ rfl)
    fun pin _ hpin ↦ ?_) fun ins ins' hins ↦ ?_
  · rw [← hpin]
    exact .bind (requireInput hn hdemand _) fun v w hv ↦ cast hn hv _
  refine .bind (.mapM (P := Eq) (R := L.Text) (List.forall₂_same.mpr fun _ _ ↦ rfl)
    fun pin _ hpin ↦ ?_) fun outs outs' houts ↦ ?_
  · rw [← hpin]
    refine .bind (emitOutput hn _ _) fun v w hv ↦ .bind (typeName hn _) fun e e' he ↦ ?_
    exact .seq (writeLine fun h ↦ by rw [hv.eq h, he h]) (.pure hv.exact)
  · exact writeLine fun h ↦ by rw [texts_eq hins h, texts_eq houts h]

end Lockstep

end Lock

/-! ## Inputs and outputs of the stages -/

namespace Lock

variable {L : Lock} {running : List NodeId} {demand demand' : Demand} {n m : Node}

theorem run_vertexValue {env : EmitEnv} {pin : String} (s : EmitState) :
    ((Emitter.vertexValue demand n pin).run env).run.run s =
      EmitM.finishRun (fun u ↦ { u with stage := .pixel }) (fun _ v ↦ v)
        (((EmitM.requireInput demand n pin).run env).run.run { s with stage := .vertex }) := by
  cases h : ((EmitM.requireInput demand n pin).run env).run.run { s with stage := .vertex } with
  | mk result u =>
    unfold Emitter.vertexValue
    rw [EmitM.run_bind_of_returns (a := ()) (EmitM.returns_enter.mpr rfl),
      EmitM.run_bind_of_returns (EmitM.returns_attempt.mpr h),
      EmitM.run_bind_of_returns (a := ()) (EmitM.returns_enter.mpr rfl)]
    cases result <;> rfl

namespace Lockstep

section Reads

variable (hn : L.Twin n m)

include hn

theorem vertexInput (name : String) (usage : AttributeUsage) (t : ValueType) (index : UInt32) :
    L.Lockstep running Eq (Emitter.vertexInput n name usage t index)
      (Emitter.vertexInput m name usage t index) := by
  refine .seq (requireStage hn _) (.guard (fun h ↦ by rw [hn.same h]) fun hvector ↦ ?_)
  refine .bind (vertexAttribute usage (by simpa using hvector) index) fun v w hv ↦ ?_
  rw [hv.type]
  split
  · exact forwardOutput hn hv
  · refine .ite (fun _ ↦ forwardOutput hn hv) fun _ ↦ .dialect_bind <| assignOutput hn rfl fun h ↦ ?_
    rw [hv.eq h, L.dialect_eq h]

theorem fragmentPosition :
    L.Lockstep running Eq (Emitter.fragmentPosition n) (Emitter.fragmentPosition m) :=
  .seq (requireStage hn _) <| .seq (require _) <| .dialect_bind <| assignOutput hn rfl fun h ↦ by
    rw [L.dialect_eq h]

theorem frontFace : L.Lockstep running Eq (Emitter.frontFace n) (Emitter.frontFace m) :=
  .seq (requireStage hn _) <| .seq (require _) <| .dialect_bind <| assignOutput hn rfl fun h ↦ by
    rw [L.dialect_eq h]

theorem instanceIndex :
    L.Lockstep running Eq (Emitter.instanceIndex n) (Emitter.instanceIndex m) := by
  refine .seq (requireStage hn _) (.dialect_bind ?_)
  obtain ⟨e, e', he, he', hsame⟩ | ⟨he, he'⟩ := L.feature_cases L.supports.instanceId
    fun h ↦ by rw [L.dialect_eq h]
  · rw [he, he']
    exact .seq (require _) (assignOutput hn rfl hsame)
  · rw [he]
    exact .lacking hn fun h ↦ by rw [he' h]

end Reads

/-- A target may need no declaration in one of the dialects. -/
theorem declareTarget {target target' : Option String × String} {x y : EmitM Unit}
    (htarget : L.exact → target' = target) (h : L.Lockstep running Eq x y) :
    L.Lockstep running Eq
      (if target.1.isSome then
        (do
          EmitM.declareOnce .outputs target.2 target.1
          x)
      else x)
      (if target'.1.isSome then
        (do
          EmitM.declareOnce .outputs target'.2 target'.1
          y)
      else y) := by
  -- One of the emissions may declare its target where the other one does nothing.
  let declared (p : Option String × String) (shader : StageShader) : StageShader :=
    if p.1.isSome then shader.declareOnce .outputs p.2 p.1 else shader
  have hreturns (env : EmitEnv) (p : Option String × String) (s : EmitState) :
      EmitM.Returns env (if p.1.isSome then EmitM.declareOnce .outputs p.2 p.1 else Pure.pure ()) s ()
        (s.modifyShader s.stage (declared p)) := by
    by_cases hp : p.1.isSome
    · simpa only [declared, if_pos hp, ← EmitState.declareOnce_eq_modifyShader] using
        EmitM.returns_declareOnce.mpr rfl
    · simp only [declared, if_neg hp]
      exact EmitM.returns_pure.mpr ⟨rfl, by cases s.stage <;> rfl⟩
  have hindex (p : Option String × String) (shader : StageShader) :
      (declared p shader).index = shader.index := by
    simp only [declared]
    split <;> simp
  have htexts (p : Option String × String) {s t : StageShader}
      (h : s.texts.Agree L.agree t.texts) :
      (declared p s).texts.Agree L.agree (declared p t).texts := by
    simp only [declared]
    split
    · exact h.declareOnce ..
    · exact h
  have hdeclare : L.Lockstep running Eq
      (if target.1.isSome then EmitM.declareOnce .outputs target.2 target.1 else Pure.pure ())
      (if target'.1.isSome then EmitM.declareOnce .outputs target'.2 target'.1 else Pure.pure ()) :=
    .of_returns fun s t hst ↦ ⟨(), _, (), _, hreturns _ _ s, hreturns _ _ t, rfl, by
      rw [hst.stage]
      refine hst.modifyShader s.stage fun hshader ↦ hshader.congr (hindex ..) (hindex ..) fun h ↦ ?_
      rw [htarget h]
      exact htexts target (hshader.texts h)⟩
  have hseq (p : Option String × String) (z : EmitM Unit) :
      (if p.1.isSome then (do EmitM.declareOnce .outputs p.2 p.1; z) else z) =
        (do
          (if p.1.isSome then EmitM.declareOnce .outputs p.2 p.1 else Pure.pure ())
          z) := by
    split <;> rfl
  rw [hseq, hseq]
  exact .seq hdeclare h

variable (hn : L.Twin n m) (hdemand : L.Agree running demand demand')

include hn hdemand

theorem vertexOutput :
    L.Lockstep running Eq (Emitter.vertexOutput demand n) (Emitter.vertexOutput demand' m) := by
  refine .seq (requireStage hn _) (.bind (vectorInput hn hdemand _) fun v w hv ↦ .dialect_bind ?_)
  exact writeLine fun h ↦ by rw [hv.1.eq h, L.dialect_eq h]

theorem writeTarget (pin : String) (index : Nat) :
    L.Lockstep running Eq (Emitter.writeTarget demand n pin index)
      (Emitter.writeTarget demand' m pin index) := by
  refine .bind (inputValue? hn hdemand _) fun v? w? h ↦ ?_
  cases h with
  | none => exact .pure rfl
  | some hv =>
    refine .dialect_bind ?_
    dsimp only
    rw [hv.type]
    refine .within hn (fun h ↦ Nat.le_trans L.supports.renderTargets h) (fun h ↦ by rw [L.dialect_eq h]) ?_
    refine .guard (fun h ↦ by rw [hn.same h]) fun _ ↦ .bind (cast hn hv _) fun color color' hcolor ↦ ?_
    refine declareTarget (fun h ↦ by rw [L.dialect_eq h]) (writeLine fun h ↦ ?_)
    rw [L.dialect_eq h, hcolor h]

theorem pixelOutput (state : RenderState) :
    L.Lockstep running Eq (Emitter.pixelOutput demand n state)
      (Emitter.pixelOutput demand' m state) := by
  refine .seq (requireStage hn _) (.seq (setRenderState _) ?_)
  refine .seq (.forIn (P := Eq) (List.forall₂_same.mpr fun _ _ ↦ rfl) fun p q hpq ↦ ?_) (.pure rfl)
  rw [← hpq]
  exact .seq (writeTarget hn hdemand _ _) (.pure ⟨rfl, rfl⟩)

theorem vertexValue (pin : String) :
    L.Lockstep running L.Value (Emitter.vertexValue demand n pin)
      (Emitter.vertexValue demand' m pin) :=
  .framed (fun s ↦ { s with stage := .vertex }) (fun t ↦ { t with stage := .vertex })
    (fun _ u ↦ { u with stage := .pixel }) (fun _ v ↦ { v with stage := .pixel })
    (fun _ _ v ↦ v) (fun _ _ v ↦ v) run_vertexValue run_vertexValue
    (fun _ _ hst ↦ hst.enter .vertex) (fun _ _ _ _ _ huv ↦ huv.enter .pixel)
    (fun _ _ _ _ _ _ _ _ hv ↦ hv) (requireInput hn hdemand pin)

theorem interpolator :
    L.Lockstep running Eq (Emitter.interpolator demand n) (Emitter.interpolator demand' m) := by
  refine .bind currentStage fun stage _ hstage ↦ ?_
  subst hstage
  refine .ite (fun _ ↦ .bind (requireInput hn hdemand _) fun v w hv ↦ forwardOutput hn hv) fun _ ↦ ?_
  refine .bind (vertexValue hn hdemand _) fun v w hv ↦ ?_
  rw [hv.type]
  refine .guard (fun h ↦ by rw [hn.same h]) fun hvector ↦ .bind allocateInterpolator fun slot _ hslot ↦ ?_
  subst hslot
  refine .dialect_bind ?_
  have hvalue : L.Value ⟨L.left.dialect.inputReference s!"Attr{slot}", v.type⟩
      ⟨L.right.dialect.inputReference s!"Attr{slot}", v.type⟩ :=
    ⟨rfl, fun h ↦ by cases htype : v.type <;> simp_all [ValueType.isVector, ValueType.isTexture],
      fun h ↦ by rw [L.dialect_eq h]⟩
  refine .seq (modifyStage .vertex fun s t hst ↦ ?_)
    (.seq (modifyStage .pixel fun s t hst ↦ ?_) (bindOuter hn _ _ hvalue))
  · exact (hst.modifyBlock .outputs fun h ↦ by rw [L.dialect_eq h]).modifyBody fun h b c hbc ↦ by
      rw [hv.eq h, L.dialect_eq h]
      exact hbc.line _
  · exact hst.modifyBlock .inputs fun h ↦ by rw [L.dialect_eq h]

end Lockstep

end Lock

end ShaderGraph
