import ShaderGraph.Proofs.Trace.Composition

/-!
# Traces of emitters

The emitter of every kind has a trace from every state, and it binds no output of a laid out node
twice. So every evaluation of an output has a trace as well.
-/

namespace ShaderGraph

open EmitM

theorem map_fst_zip_sublist {α β : Type} (as : List α) (bs : List β) :
    ((as.zip bs).map Prod.fst).Sublist as := by
  induction as generalizing bs with
  | nil => exact .slnil
  | cons a as ih =>
    cases bs with
    | nil => exact List.nil_sublist _
    | cons b bs => exact (ih bs).cons_cons a

namespace Composed

variable {env : EmitEnv} {n : Node}

/-! ## Scalars and componentwise arithmetic -/

theorem intrinsic (f : Intrinsic) :
    Composed env n (some n) ["Output"] fun demand ↦ Emitter.intrinsic demand n f :=
  (vectorInput "Input").andThen fun _ ↦ after .dialect fun _ ↦ assignOutput _ _

theorem negate : Composed env n (some n) ["Output"] fun demand ↦ Emitter.negate demand n :=
  (requireInput "Input").andThen fun _ ↦ guard (.throw _) fun _ ↦ assignOutput _ _

theorem round : Composed env n (some n) ["Output"] fun demand ↦ Emitter.round demand n :=
  (vectorInput "Input").andThen fun _ ↦ after .dialect fun _ ↦ assignOutput _ _

theorem truncate : Composed env n (some n) ["Output"] fun demand ↦ Emitter.truncate demand n :=
  (vectorInput "Input").andThen fun _ ↦ after .dialect fun _ ↦ assignOutput _ _

theorem log (base : LogBase) :
    Composed env n (some n) ["Output"] fun demand ↦ Emitter.log demand n base :=
  (vectorInput "Input").andThen fun _ ↦ after .dialect fun _ ↦ assignOutput _ _

theorem length : Composed env n (some n) ["Output"] fun demand ↦ Emitter.length demand n :=
  (vectorInput "Input").andThen fun _ ↦ assignOutput _ _

theorem clamp (low high : Binary32) :
    Composed env n (some n) ["Output"] fun demand ↦ Emitter.clamp demand n low high :=
  (vectorInput "Input").andThen fun _ ↦ assignOutput _ _

theorem derivative (axis : DerivativeAxis) :
    Composed env n (some n) ["Output"] fun demand ↦ Emitter.derivative demand n axis :=
  after (.requireStage _) fun _ ↦ (vectorInput "Input").andThen fun _ ↦
    after (.require _) fun _ ↦ after .dialect fun _ ↦ assignOutput _ _

theorem angle (f : AngleFunction) :
    Composed env n (some n) ["Output"] fun demand ↦ Emitter.angle demand n f :=
  (scalarInput "Theta").andThen fun _ ↦ assignOutput _ _

theorem arcusTan : Composed env n (some n) ["Output"] fun demand ↦ Emitter.arcusTan demand n :=
  (requireInput "XY").andThen fun _ ↦ guard (.throw _) fun _ ↦
    after .dialect fun _ ↦ assignOutput _ _

theorem arithmetic (op : ArithmeticOperator) :
    Composed env n (some n) ["Output"] fun demand ↦ Emitter.arithmetic demand n op :=
  (requireInput "Input1").andThen fun _ ↦ (requireInput "Input2").andThen fun _ ↦
    after (.commonType _) fun _ ↦ after (.cast _ _) fun _ ↦ after (.cast _ _) fun _ ↦
      after .dialect fun _ ↦ assignOutput _ _

theorem vectorFunction (f : VectorFunction) :
    Composed env n (some n) ["Output"] fun demand ↦ Emitter.vectorFunction demand n f :=
  (vectorInput _).andThen fun _ ↦ (vectorInput _).andThen fun _ ↦
    after (.commonType _) fun _ ↦ after (.cast _ _) fun _ ↦ after (.cast _ _) fun _ ↦
      assignOutput _ _

theorem mulAdd : Composed env n (some n) ["Output"] fun demand ↦ Emitter.mulAdd demand n :=
  (vectorInput "Input1").andThen fun _ ↦ (vectorInput "Input2").andThen fun _ ↦
    (vectorInput "Input3").andThen fun _ ↦ after (.commonType _) fun _ ↦
      after (.cast _ _) fun _ ↦ after (.cast _ _) fun _ ↦ after (.cast _ _) fun _ ↦ assignOutput _ _

theorem lerp : Composed env n (some n) ["Output"] fun demand ↦ Emitter.lerp demand n :=
  (vectorInput "Input1").andThen fun _ ↦ (vectorInput "Input2").andThen fun _ ↦
    (vectorInput "Blend").andThen fun _ ↦ after (.commonType _) fun _ ↦
      either_andThen (quiet (.pure _)) (quiet (.cast _ _)) fun _ ↦ after (.cast _ _) fun _ ↦
        after (.cast _ _) fun _ ↦ after .dialect fun _ ↦ assignOutput _ _

theorem power : Composed env n (some n) ["Output"] fun demand ↦ Emitter.power demand n :=
  (vectorInput "Exponent").andThen fun _ ↦ (vectorInput "Input").andThen fun _ ↦
    after (.commonType _) fun _ ↦ after .dialect fun _ ↦ after (.cast _ _) fun _ ↦
      after (.cast _ _) fun _ ↦ assignOutput _ _

theorem polynomial :
    Composed env n (some n) ["Output"] fun demand ↦ Emitter.polynomial demand n := by
  refine (vectorInput "X").andThen fun x ↦
    (vectorInput "Coefficients").andThen fun coefficients ↦ after .dialect fun d ↦ ?_
  split
  · exact quiet (.throw _)
  · exact assignOutput _ _
  · exact assignOutput _ _

theorem constant (components : List Binary32) :
    Composed env n (some n) ["Output"] fun _ ↦ Emitter.constant n components :=
  after .dialect fun _ ↦ (emitOutput "Output" _).bind fun _ ↦ .silent
    ((Silent.typeName _).bind fun _ ↦ .writeLine _)

/-! ## Vectors and matrices -/

theorem dot : Composed env n (some n) ["Output"] fun demand ↦ Emitter.dot demand n :=
  (vectorInput "Input1").andThen fun _ ↦ (vectorInput "Input2").andThen fun _ ↦
    after (.commonType _) fun _ ↦ after (.cast _ _) fun _ ↦ after (.cast _ _) fun _ ↦
      assignOutput _ _

theorem cross : Composed env n (some n) ["Output"] fun demand ↦ Emitter.cross demand n :=
  (vectorInput "Input1").andThen fun _ ↦ (vectorInput "Input2").andThen fun _ ↦
    after (.cast _ _) fun _ ↦ after (.cast _ _) fun _ ↦ assignOutput _ _

theorem reflect : Composed env n (some n) ["Output"] fun demand ↦ Emitter.reflect demand n :=
  (vectorInput "Normal").andThen fun _ ↦
    (vectorInput "Direction").andThen fun _ ↦ after (.cast _ _) fun _ ↦ assignOutput _ _

theorem swizzle (pattern : String) :
    Composed env n (some n) ["Output"] fun demand ↦ Emitter.swizzle demand n pattern := by
  refine (vectorInput "Input").andThen fun input ↦ ?_
  dsimp only
  split
  · exact after (.liftExcept _) fun components ↦ either (forwardOutput _)
      (either (either (assignOutput _ _) (after .dialect fun _ ↦ assignOutput _ _)) (assignOutput _ _))
  · exact quiet (.throw _)

theorem mixIn : Composed env n (some n) ["Output"] fun demand ↦ Emitter.mixIn demand n := by
  have hvalues : Composed env n (some n) [] _ :=
    mapM_reads (fun pin demand ↦ EmitM.inputValue? demand n pin) Emitter.componentPins
      fun pin _ ↦ inputValue? pin
  have hcomponent (p : String × Option Variable) :
      Silent env (Emitter.mixedComponent n p.1 p.2) := by
    cases p.2 with
    | none => exact .pure _
    | some v => exact .either (.cast _ _) (.throw _)
  exact hvalues.andThen fun values ↦ guard (.throw _) fun _ ↦
    after (.mapM hcomponent _) fun components ↦
      either (after (.pure _) fun _ ↦ assignOutput _ _)
        (after .dialect fun _ ↦ after (.pure _) fun _ ↦ assignOutput _ _)

theorem mixOut :
    Composed env n (some n) Emitter.componentPins fun demand ↦ Emitter.mixOut demand n := by
  refine (vectorInput "Input").andThen fun input ↦ either ?_ ?_
  · exact ((bindOutput "X" input).bind fun _ ↦ .silent (.pure ())).weaken (by decide)
  · have hbind : Composed env n (some n) _ _ := forIn
      (fun (p : String × String) _ _ ↦ do
        let _ ← EmitM.bindOutput n p.1 ⟨s!"{input.name}.{p.2}", .scalar⟩
        pure (.yield ⟨⟩))
      (fun p _ ↦ EmitM.bindOutput n p.1 ⟨s!"{input.name}.{p.2}", .scalar⟩ >>= fun _ ↦ pure ⟨⟩)
      (fun p ↦ [p.1])
      ((Emitter.componentPins.zip ["x", "y", "z", "w"]).take (input.type.components?.getD 1))
      (fun p _ ↦ by simp)
      fun p _ ↦ (bindOutput p.1 _).bind fun _ ↦ .silent (.pure _)
    refine (hbind.followed fun _ ↦ .silent (.pure ())).weaken ?_
    rw [← List.map_eq_flatMap, List.map_take]
    exact List.take_sublist _ _

theorem matrixIn : Composed env n (some n) ["Output"] fun demand ↦ Emitter.matrixIn demand n := by
  have haxes : Composed env n (some n) [] _ := mapM_reads
    (fun pin demand ↦ do
      let axis ← EmitM.vectorInput demand n pin
      EmitM.cast n axis .vec4)
    Emitter.axisPins
    fun pin _ ↦ (vectorInput pin).andThen fun _ ↦ quiet (.cast _ _)
  exact haxes.andThen fun _ ↦ after .dialect fun _ ↦ assignOutput _ _

theorem matrixOut :
    Composed env n (some n) Emitter.axisPins fun demand ↦ Emitter.matrixOut demand n := by
  refine (matrixInput "Input").andThen fun input ↦ ?_
  have hbind : Composed env n (some n) _ _ := forIn
    (fun (p : String × Nat) _ _ ↦ do
      let output ← EmitM.emitOutput n p.1 .vec4
      EmitM.assign n output s!"{input.name}[{p.2}]"
      pure (.yield ⟨⟩))
    (fun p _ ↦ do
      let output ← EmitM.emitOutput n p.1 .vec4
      EmitM.assign n output s!"{input.name}[{p.2}]")
    (fun p ↦ [p.1]) Emitter.axisPins.zipIdx (fun p _ ↦ by simp)
    fun p _ ↦ (emitOutput p.1 _).bind fun _ ↦ .silent (.assign _ _)
  exact (hbind.bind fun _ ↦ .silent (.pure ())).weaken (by decide)

theorem transform :
    Composed env n (some n) ["Output"] fun demand ↦ Emitter.transform demand n :=
  (vectorInput "Input").andThen fun _ ↦ (matrixInput "Transform").andThen fun _ ↦
    after (.cast _ _) fun _ ↦ after .dialect fun _ ↦ assignOutput _ _

theorem transpose :
    Composed env n (some n) ["Output"] fun demand ↦ Emitter.transpose demand n := by
  refine after .dialect fun d ↦ ?_
  split
  · exact (matrixInput "Input").andThen fun _ ↦ after (.require _) fun _ ↦
      assignOutput _ _
  · exact quiet (.unsupported _)

/-! ## Branches, discards and loops -/

theorem captureBranch (hkind : n.kind.opensScope) (pin : String) :
    Composed env n (some n) [] fun demand ↦ Emitter.captureBranch demand n pin :=
  (Composed.capture rfl hkind (requireInput pin)).andThen fun _ ↦ quiet (.pure _)

theorem branchOutput (branches : List Emitter.Branch) :
    Composed env n (some n) ["Output"] fun _ ↦ Emitter.branchOutput n branches :=
  after (.commonType _) fun _ ↦ (emitOutput "Output" _).bind fun _ ↦ .silent
    ((Silent.typeName _).bind fun _ ↦ (Silent.writeLine _).bind fun _ ↦ .pure _)

end Composed

namespace Silent

variable {env : EmitEnv} {n : Node}

theorem writeBranch (output : Variable) (branch : Emitter.Branch) :
    Silent env (Emitter.writeBranch n output branch) :=
  (cast _ _).bind fun _ ↦ modifyBody fun b ↦ .writeBranch b _ _

theorem writeAttribute (attribute? : Option String) :
    Silent env (Emitter.writeAttribute attribute?) := by
  cases attribute? with
  | none => exact pure _
  | some text => exact writeLine text

theorem writeCases (output : Variable) (select keyword : String)
    (cases : List (Int32 × Emitter.Branch)) :
    Silent env (Emitter.writeCases n output select keyword cases) := by
  induction cases generalizing keyword with
  | nil => exact pure _
  | cons c cases ih =>
    exact (writeLine _).bind fun _ ↦ (writeBranch _ _).bind fun _ ↦ ih "else if"

theorem scriptPinType (pin : ScriptPin) : Silent env (Emitter.scriptPinType n pin) :=
  guard (unsupported _) fun _ ↦ typeName _

theorem scriptSignature (name : String) (inputs outputs : List ScriptPin) :
    Silent env (Emitter.scriptSignature n name inputs outputs) :=
  (mapM (fun pin ↦ (scriptPinType pin).bind fun _ ↦ pure _) inputs).bind fun _ ↦
    (mapM (fun pin ↦ (scriptPinType pin).bind fun _ ↦ pure _) outputs).bind fun _ ↦ pure _

theorem sampling (templates : SampleTemplates) (state : SamplerState) :
    Silent env (Emitter.sampling n templates state) := by
  unfold Emitter.sampling
  split
  · cases templates.sampleCompare? with
    | some c => exact pure _
    | none => exact unsupported _
  · refine currentStage.bind fun stage ↦ ?_
    dsimp only
    split
    · exact pure _
    · exact unsupported _

end Silent

namespace Composed

variable {env : EmitEnv} {n : Node}

theorem conditional {op : Comparison} {hint : BranchHint} (hkind : n.kind = .conditional op hint) :
    Composed env n (some n) ["Output"] fun demand ↦ Emitter.conditional demand n op hint := by
  have hscope : n.kind.opensScope := by rw [hkind]; rfl
  have hneeds : ∀ o ∈ env.graph.commonOutputs n ["CaseTrue", "CaseFalse"], env.graph.Needs n o :=
    fun _ ho ↦ .hoisted (by rwa [Graph.hoisted, hkind])
  exact .read <| (hoist hneeds).andThen fun _ ↦ (scalarOperand "Input").andThen fun _ ↦
    (scalarOperand "Reference").andThen fun _ ↦ (captureBranch hscope "CaseTrue").andThen fun _ ↦
    (captureBranch hscope "CaseFalse").andThen fun _ ↦ (branchOutput _).bind fun _ ↦ .silent <|
      (Silent.branchAttribute _).bind fun _ ↦ (Silent.writeAttribute _).bind fun _ ↦
        (Silent.writeLine _).bind fun _ ↦ (Silent.writeBranch _ _).bind fun _ ↦
          (Silent.writeLine _).bind fun _ ↦ .writeBranch _ _

theorem switch {cases : List Int32} {hint : BranchHint} (hkind : n.kind = .switch cases hint) :
    Composed env n (some n) ["Output"] fun demand ↦ Emitter.switch demand n cases hint := by
  have hscope : n.kind.opensScope := by rw [hkind]; rfl
  have hneeds : ∀ o ∈ env.graph.commonOutputs n (cases.map switchCasePin ++ ["Default"]),
      env.graph.Needs n o := fun _ ho ↦ .hoisted (by rwa [Graph.hoisted, hkind])
  unfold Emitter.switch
  dsimp only
  split
  · exact quiet (.throw _)
  · have hbranches : Composed env n (some n) [] _ := mapM_reads
      (fun pin demand ↦ Emitter.captureBranch demand n pin) (cases.map switchCasePin)
      fun pin _ ↦ captureBranch hscope pin
    exact .read <| (hoist hneeds).andThen fun _ ↦ (scalarOperand "Select").andThen fun _ ↦
      hbranches.andThen fun _ ↦ (captureBranch hscope "Default").andThen fun _ ↦
      (branchOutput _).bind fun _ ↦ .silent <|
        (Silent.branchAttribute _).bind fun _ ↦ (Silent.writeAttribute _).bind fun _ ↦
          (Silent.writeCases _ _ _ _).bind fun _ ↦ .guard (.writeLine _) fun _ ↦ .writeBranch _ _

theorem discard (op : Comparison) :
    Composed env n (some n) ["Output"] fun demand ↦ Emitter.discard demand n op :=
  after (.requireStage _) fun _ ↦ (scalarOperand "Input").andThen fun _ ↦
    (scalarOperand "Reference").andThen fun _ ↦ after (.writeLine _) fun _ ↦
      (requireInput "Pass").andThen fun _ ↦ forwardOutput _

theorem initialValue? :
    Composed env n (some n) [] fun demand ↦ Emitter.initialValue? demand n := by
  refine either (quiet (.pure _)) ((inputValue? "Initial").andThen fun initial? ↦ ?_)
  cases initial? with
  | none => exact quiet (.pure _)
  | some initial => exact quiet (.guard (.throw _) fun _ ↦ .pure _)

theorem loopCondition? {own? : Option Node} (isRequired : Bool) :
    Composed env n own? [] fun demand ↦ Emitter.loopCondition? demand n isRequired := by
  refine either ((scalarOperand "Condition").andThen fun _ ↦ quiet (.pure _))
    (either (quiet (.pure _)) ((inputValue? "Condition").andThen fun condition? ↦ ?_))
  cases condition? with
  | none => exact quiet (.pure _)
  | some condition => exact quiet ((Silent.cast _ _).bind fun _ ↦ .pure _)

theorem loopBody (loop : Emitter.Loop) (names : List String) :
    Composed env n (some n) (loop.counters.map Emitter.Counter.pin) fun demand ↦
      Emitter.loopBody demand n loop names := by
  have hbind : Composed env n (some n) _ _ := forIn
    (fun (p : Emitter.Counter × String) _ _ ↦ do
      let _ ← EmitM.bindOutput n p.1.pin ⟨p.2, .scalar⟩
      pure (.yield ⟨⟩))
    (fun p _ ↦ EmitM.bindOutput n p.1.pin ⟨p.2, .scalar⟩ >>= fun _ ↦ pure ⟨⟩)
    (fun p ↦ [p.1.pin]) (loop.counters.zip names) (fun p _ ↦ by simp)
    fun p _ ↦ (bindOutput p.1.pin _).bind fun _ ↦ .silent (.pure _)
  refine (hbind.followed fun _ ↦ (loopCondition? loop.conditionRequired).andThen fun _ ↦
    (requireInput "Input").andThen fun _ ↦ .silent (.pure _)).weaken ?_
  rw [← List.map_eq_flatMap, ← Function.comp_def, ← List.map_map]
  exact (map_fst_zip_sublist loop.counters names).map Emitter.Counter.pin

theorem emitLoop (hkind : n.kind.isLoop) (loop : Emitter.Loop) :
    Composed env n (some n) ("Output" :: loop.counters.map Emitter.Counter.pin) fun demand ↦
      Emitter.emitLoop demand n loop := by
  have hneeds : ∀ o ∈ env.graph.frontier n ["Input", "Condition"], env.graph.Needs n o :=
    fun _ ho ↦ .hoisted (by rwa [Graph.hoisted_of_isLoop hkind])
  refine .read <| (hoist hneeds).andThen fun _ ↦ initialValue?.andThen fun initial? ↦
    (emitOutput "Output" _).bind fun output ↦ after (.mapM (fun _ ↦ .freshName) _) fun names ↦ ?_
  have hbody : Composed env n (some n) _ _ :=
    .capture rfl (NodeKind.opensScope_of_isLoop hkind) (loopBody loop names)
  refine hbody.followed fun result ↦ ?_
  have hwrite (result start : String) (value : Variable) (body : String)
      (condition? : Option String) : Silent env (do
        EmitM.assign n value start
        Emitter.writeAttribute (← EmitM.unrollAttribute)
        let scalar ← EmitM.typeName n .scalar
        EmitM.modifyBody (Emitter.writeLoop loop names scalar body condition? result)) :=
    (Silent.assign _ _).bind fun _ ↦ Silent.unrollAttribute.bind fun _ ↦
      (Silent.writeAttribute _).bind fun _ ↦ (Silent.typeName _).bind fun _ ↦
        .modifyBody fun b ↦ .writeLoop loop names _ body condition? _ b
  refine guard (.throw _) fun _ ↦ (Composed.retype rfl).andThen fun _ ↦
    after (.cast _ _) fun _ ↦ ?_
  dsimp only
  split
  · exact after (.cast _ _) fun start ↦ quiet (hwrite _ _ _ _ _)
  · exact after .dialect fun _ ↦ after (.pure _) fun start ↦ quiet (hwrite _ _ _ _ _)

theorem repeatWhile (hkind : n.kind.isLoop) :
    Composed env n (some n) ["Output", "N"] fun demand ↦ Emitter.repeatWhile demand n := by
  exact after .dialect fun d ↦ guard (.unsupported _) fun _ ↦
    emitLoop hkind { counters := [⟨"N", none⟩], conditionRequired := true }

/-! ## Uniforms, textures and samplers -/

theorem uniform (parameter : String) (t : ValueType) :
    Composed env n (some n) ["Output"] fun _ ↦ Emitter.uniform n parameter t :=
  guard (.throw _) fun _ ↦ after (.declareUniform _ _ _) fun _ ↦ forwardOutput _

theorem subscript (parameter : String) (length : UInt32) :
    Composed env n (some n) [] fun demand ↦ Emitter.subscript demand n parameter length := by
  refine after .read fun e ↦ ?_
  split
  · exact quiet (.either (.pure _) (.throw _))
  · exact (scalarOperand "Index").andThen fun _ ↦ quiet (.pure _)

theorem indexedUniform (parameter : String) (t : ValueType) (length : UInt32) :
    Composed env n (some n) ["Output"] fun demand ↦
      Emitter.indexedUniform demand n parameter t length := by
  unfold Emitter.indexedUniform
  dsimp only
  refine guard (.throw _) fun _ ↦ guard (.throw _) fun _ ↦ after (.declareUniform _ _ _) fun _ ↦ ?_
  exact (subscript parameter length).andThen fun _ ↦ assignOutput _ _

theorem sampler (state : SamplerState) :
    Composed env n (some n) ["Output"] fun demand ↦ Emitter.sampler demand n state := by
  refine (textureInput "Texture").andThen fun texture ↦ after .dialect fun d ↦ ?_
  split
  · exact after (.sampling _ _) fun _ ↦ (requireInput "TexCoord").andThen fun _ ↦
      after (.cast _ _) fun _ ↦ after (.declareSampler _ _ _) fun _ ↦ assignOutput _ _
  · exact quiet (.unsupported _)

theorem textureSize :
    Composed env n (some n) ["Output"] fun demand ↦ Emitter.textureSize demand n :=
  (textureInput "Input").andThen fun _ ↦ after .dialect fun _ ↦
    after (.declareUniform _ _ _) fun _ ↦ forwardOutput _

/-! ## Inputs and outputs of the stages -/

theorem vertexInput (name : String) (usage : AttributeUsage) (t : ValueType) (index : UInt32) :
    Composed env n (some n) ["Output"] fun _ ↦ Emitter.vertexInput n name usage t index := by
  refine after (.requireStage _) fun _ ↦ guard (.throw _) fun _ ↦
    after (.vertexAttribute _ _ _ _) fun source ↦ ?_
  dsimp only
  split
  · exact forwardOutput _
  · exact either (forwardOutput _) (after .dialect fun _ ↦ assignOutput _ _)

theorem vertexOutput : Composed env n (some n) [] fun demand ↦ Emitter.vertexOutput demand n :=
  after (.requireStage _) fun _ ↦ (vectorInput "Input").andThen fun _ ↦
    after .dialect fun _ ↦ quiet (.writeLine _)

theorem writeTarget (pin : String) (index : Nat) :
    Composed env n (some n) [] fun demand ↦ Emitter.writeTarget demand n pin index := by
  refine (inputValue? pin).andThen fun value? ↦ ?_
  cases value? with
  | none => exact quiet (.pure _)
  | some value =>
    exact after .dialect fun d ↦ quiet (.guard (.unsupported _) fun _ ↦ .guard (.throw _) fun _ ↦
      (Silent.cast _ _).bind fun _ ↦ .guard (.declareOnce _ _ _) fun _ ↦ .writeLine _)

theorem pixelOutput (state : RenderState) :
    Composed env n (some n) [] fun demand ↦ Emitter.pixelOutput demand n state := by
  have htargets : Composed env n (some n) _ _ := forIn
    (fun (p : String × Nat) _ demand ↦ do
      Emitter.writeTarget demand n p.1 p.2
      pure (.yield ⟨⟩))
    (fun p demand ↦ Emitter.writeTarget demand n p.1 p.2) (fun _ ↦ [])
    Emitter.targetPins.zipIdx (fun p _ ↦ rfl) fun p _ ↦ writeTarget p.1 p.2
  exact after (.requireStage _) fun _ ↦ after (.setRenderState _) fun _ ↦
    (htargets.bind fun _ ↦ .silent (.pure _)).weaken (by decide)

theorem fragmentPosition :
    Composed env n (some n) ["Output"] fun _ ↦ Emitter.fragmentPosition n :=
  after (.requireStage _) fun _ ↦ after (.require _) fun _ ↦ after .dialect fun _ ↦ assignOutput _ _

theorem frontFace : Composed env n (some n) ["Output"] fun _ ↦ Emitter.frontFace n :=
  after (.requireStage _) fun _ ↦ after (.require _) fun _ ↦ after .dialect fun _ ↦ assignOutput _ _

theorem instanceIndex : Composed env n (some n) ["Output"] fun _ ↦ Emitter.instanceIndex n := by
  refine after (.requireStage _) fun _ ↦ after .dialect fun d ↦ ?_
  split
  · exact after (.require _) fun _ ↦ assignOutput _ _
  · exact quiet (.unsupported _)

theorem targetSize : Composed env n (some n) ["Output"] fun _ ↦ Emitter.targetSize n :=
  after .dialect fun _ ↦ after (.declareUniform _ _ _) fun _ ↦ after (.require _) fun _ ↦
    forwardOutput _

/-! ## Scripts -/

theorem scriptResult (pin : ScriptPin) :
    Composed env n (some n) [pin.name] fun _ ↦ Emitter.scriptResult n pin :=
  (emitOutput pin.name _).bind fun _ ↦ .silent
    ((Silent.typeName _).bind fun _ ↦ (Silent.writeLine _).bind fun _ ↦ .pure _)

/-- What the emitter of a script does once the subroutine is defined. -/
theorem scriptCall (name : String) (inputs outputs : List ScriptPin) :
    Composed env n (some n) (outputs.map ScriptPin.name) (fun demand ↦ do
      let ins ← inputs.mapM (Emitter.scriptArgument demand n)
      let outs ← outputs.mapM (Emitter.scriptResult n)
      let arguments := ", ".intercalate (ins ++ outs)
      EmitM.writeLine s!"{name}({arguments});") := by
  have harguments : Composed env n (some n) [] _ := mapM_reads
    (fun pin demand ↦ Emitter.scriptArgument demand n pin) inputs
    fun pin _ ↦ (requireInput pin.name).andThen fun _ ↦ quiet (.cast _ _)
  have hresults : Composed env n (some n) _ _ := mapM
    (fun pin _ ↦ Emitter.scriptResult n pin) (fun pin ↦ [pin.name]) outputs
    fun pin _ ↦ scriptResult pin
  refine harguments.andThen fun ins ↦ ?_
  refine (hresults.followed fun outs ↦ .silent (.writeLine _)).weaken ?_
  rw [List.map_eq_flatMap]

theorem script (name body : String) (inputs outputs : List ScriptPin) :
    Composed env n (some n) (outputs.map ScriptPin.name) fun demand ↦
      Emitter.script demand n name body inputs outputs :=
  after (.scriptSignature name inputs outputs) fun signature ↦
    after (.defineScript name signature body) fun _ ↦ scriptCall name inputs outputs

end Composed

/-- The emitter of every other node than an interpolator is composed, and the names of the outputs that it
binds are distinct if those of the node are. -/
theorem composed_emitKind (env : EmitEnv) {n : Node} (hinterpolator : n.kind.isInterpolator = false) :
    ∃ names, (n.IsLaidOut → (n.outputs.map Pin.name).Nodup → names.Nodup) ∧
      Composed env n (some n) names fun demand ↦ emitKind demand n := by
  have hfixed {names : List String} {x : Demand → EmitM Unit} (hnames : names.Nodup)
      (h : Composed env n (some n) names x) :
      ∃ names : List String, (n.IsLaidOut → (n.outputs.map Pin.name).Nodup → names.Nodup) ∧
        Composed env n (some n) names x := ⟨names, fun _ _ ↦ hnames, h⟩
  have hone := List.nodup_singleton "Output"
  unfold emitKind
  cases hkind : n.kind with
  | intrinsic f => exact hfixed hone (.intrinsic f)
  | angle f => exact hfixed hone (.angle f)
  | arithmetic op => exact hfixed hone (.arithmetic op)
  | vectorFunction f => exact hfixed hone (.vectorFunction f)
  | negate => exact hfixed hone .negate
  | round => exact hfixed hone .round
  | truncate => exact hfixed hone .truncate
  | log base => exact hfixed hone (.log base)
  | length => exact hfixed hone .length
  | clamp low high => exact hfixed hone (.clamp low high)
  | derivative axis => exact hfixed hone (.derivative axis)
  | arcusTan => exact hfixed hone .arcusTan
  | mulAdd => exact hfixed hone .mulAdd
  | lerp => exact hfixed hone .lerp
  | power => exact hfixed hone .power
  | polynomial => exact hfixed hone .polynomial
  | dot => exact hfixed hone .dot
  | cross => exact hfixed hone .cross
  | reflect => exact hfixed hone .reflect
  | swizzle pattern => exact hfixed hone (.swizzle pattern)
  | mixIn => exact hfixed hone .mixIn
  | mixOut => exact hfixed (by decide) .mixOut
  | matrixIn => exact hfixed hone .matrixIn
  | matrixOut => exact hfixed (by decide) .matrixOut
  | transform => exact hfixed hone .transform
  | transpose => exact hfixed hone .transpose
  | scalar value => exact hfixed hone (.constant _)
  | vector x y z w => exact hfixed hone (.constant _)
  | color r g b a => exact hfixed hone (.constant _)
  | conditional op hint => exact hfixed hone (.conditional hkind)
  | switch cases hint => exact hfixed hone (.switch hkind)
  | discard op => exact hfixed hone (.discard op)
  | iterate first last =>
    exact hfixed (by simp) (.emitLoop (by rw [hkind]; rfl) _)
  | iterate2d firstX lastX firstY lastY =>
    exact hfixed (by simp) (.emitLoop (by rw [hkind]; rfl) _)
  | sum first last =>
    exact hfixed (by simp) (.emitLoop (by rw [hkind]; rfl) _)
  | repeatWhile => exact hfixed (by decide) (.repeatWhile (by rw [hkind]; rfl))
  | vertexInput name usage type index => exact hfixed hone (.vertexInput name usage type index)
  | vertexOutput => exact hfixed List.nodup_nil .vertexOutput
  | pixelOutput state => exact hfixed List.nodup_nil (.pixelOutput state)
  | interpolator => simp [hkind, NodeKind.isInterpolator] at hinterpolator
  | fragmentPosition => exact hfixed hone .fragmentPosition
  | frontFace => exact hfixed hone .frontFace
  | instanceIndex => exact hfixed hone .instanceIndex
  | targetSize => exact hfixed hone .targetSize
  | uniform parameter type => exact hfixed hone (.uniform parameter type)
  | indexedUniform parameter type length =>
    exact hfixed hone (.indexedUniform parameter type length)
  | sampler state => exact hfixed hone (.sampler state)
  | textureSize => exact hfixed hone .textureSize
  | script name body inputs outputs =>
    refine ⟨_, fun hlaidOut hnames ↦ ?_, .script name body inputs outputs⟩
    rw [hlaidOut.outputs, hkind] at hnames
    simpa [NodeKind.outputPins, PinSpec.required, Function.comp_def] using hnames
  | external name => exact hfixed List.nodup_nil (.silent (.throw _))

namespace Traceable

variable {env : EmitEnv} {depth : Nat} {n : Node}

/-- What an interpolator does with the value of its input when it is back in the pixel stage. -/
theorem carryOver (value : Variable) {s : EmitState} (hstage : s.stage = .pixel) :
    HasTrace env depth (some n) ["Output"] (fun _ ↦ do
      let slot ← EmitM.allocateInterpolator
      let name := s!"Attr{slot}"
      let d ← EmitM.dialect
      let declarations := d.interpolatorDeclarations value.type name slot
      EmitM.modifyStage .vertex fun s ↦
        (s.modifyBlock .outputs fun b ↦ b.line declarations.1).modifyBody fun b ↦
          b.line s!"{d.outputReference name} = {value.name};"
      EmitM.modifyStage .pixel fun s ↦ s.modifyBlock .inputs fun b ↦ b.line declarations.2
      EmitM.bindOuter .pixel n "Output" ⟨d.inputReference name, value.type⟩) s := by
  refine .after .allocateInterpolator fun slot s₁ h₁ ↦ .after .dialect fun d s₂ h₂ ↦
    .after (.modifyStage _ (fun a ↦ ?_) fun a ↦ ?_) fun _ s₃ h₃ ↦
    .after (.modifyStage _ (fun a ↦ ?_) (.modifyBlock _ · .inputs)) fun _ s₄ h₄ ↦ ?_
  · exact (StageShader.Written.modifyBlock (fun b ↦ .line b _) a .outputs).trans
      (.modifyBody (fun b ↦ .line b _) _)
  · exact (StageShader.Remembers.modifyBlock _ a .outputs).trans (.modifyBody _ _)
  · exact .modifyBlock (fun b ↦ .line b _) a .inputs
  · exact bindOuter _ _ (h₄.trans (h₃.trans (h₂.trans (h₁.trans hstage))))

/-- In the pixel stage an interpolator evaluates its input in the vertex stage, and binds its output
once it is back. -/
theorem interpolator (hdemand : Demandable env depth) :
    Traceable env depth (some n) ["Output"] fun demand ↦ Emitter.interpolator demand n := by
  intro s
  refine HasTrace.currentStage_bind ?_
  cases hstage : s.stage with
  | vertex =>
    exact (((Composed.requireInput "Input").andThen fun _ ↦ .forwardOutput _).traceable hdemand) s
  | pixel =>
    have hrequired : Traceable env depth none [] _ := requireInput hdemand n "Input"
    obtain ⟨bound, τ, r, u, hbound, htraced⟩ := hrequired { s with stage := .vertex }
    obtain rfl := List.sublist_nil.mp hbound
    have hvalue := Traced.cross hstage htraced
    cases r with
    | error e => exact ⟨[], τ, _, _, List.nil_sublist _, .fail hvalue⟩
    | ok value =>
      exact .next hvalue (.guard (.throw _) fun _ t ht ↦ carryOver value ht)

end Traceable

/-- The emitter of every node has a trace from every state. -/
theorem traceable_emitKind {env : EmitEnv} {depth : Nat} (hdemand : Demandable env depth) (n : Node) :
    ∃ names, (n.IsLaidOut → (n.outputs.map Pin.name).Nodup → names.Nodup) ∧
      Traceable env depth (some n) names fun demand ↦ emitKind demand n := by
  cases hinterpolator : n.kind.isInterpolator with
  | true =>
    have hkind : n.kind = .interpolator := NodeKind.isInterpolator_iff.mp hinterpolator
    simp only [emitKind, hkind]
    exact ⟨["Output"], fun _ _ ↦ List.nodup_singleton _, .interpolator hdemand⟩
  | false =>
    obtain ⟨names, hnames, hcomposed⟩ := composed_emitKind env hinterpolator
    exact ⟨names, hnames, hcomposed.traceable hdemand⟩

section Evaluation

variable {env : EmitEnv} {emit : Node → EmitM Unit} {depth : Nat} {id : NodeId} {pin : PinId}
  {n : Node} {s u : EmitState} {r : Except CompileError Unit}

/-- A call that starts no emitter ends in the same way whatever runs emitters, and leaves the state as
it is. -/
theorem ends_evaluateWith_of_not_starts (hnone : ∀ n, ¬ s.Starts env.graph id pin n) :
    ∃ r, ∀ emit, Ends env (evaluateWith emit id pin) s r s := by
  simp only [Ends, evaluateWith, run_bind_of_returns (returns_lookup.mpr ⟨rfl, rfl⟩)]
  cases hbound : s.binding? pin with
  | some v => exact ⟨_, fun _ ↦ rfl⟩
  | none =>
    simp only [run_bind_of_returns (returns_read.mpr ⟨rfl, rfl⟩)]
    cases hn : env.graph.node? id with
    | none => exact ⟨_, fun _ ↦ rfl⟩
    | some n =>
      simp only [run_bind_of_returns (returns_get.mpr ⟨rfl, rfl⟩)]
      by_cases hrunning : id ∈ s.inProgress
      · simp only [if_pos hrunning]
        exact ⟨_, fun _ ↦ rfl⟩
      · simp only [if_neg hrunning, run_bind_of_returns (returns_hasBoundSibling.mpr ⟨rfl, rfl⟩)]
        cases hsibling : s.hasSibling n pin with
        | true => exact ⟨_, fun _ ↦ rfl⟩
        | false => exact absurd ⟨hn, hbound, hrunning, hsibling⟩ (hnone n)

/-- A call that starts an emitter runs it, and then looks for the output. -/
theorem run_evaluateWith_of_starts (hstarts : s.Starts env.graph id pin n) :
    ((evaluateWith emit id pin).run env).run.run s =
      ((do
        emit n
        if let some v ← lookup pin then return v
        throw (.missingOutput (.ofNode n) (pinName n pin)) : EmitM Variable).run env).run.run s := by
  rw [evaluateWith, run_bind_of_returns (returns_lookup.mpr ⟨rfl, rfl⟩), hstarts.unbound]
  dsimp only
  rw [run_bind_of_returns (returns_read.mpr ⟨rfl, rfl⟩), hstarts.node]
  dsimp only
  rw [run_bind_of_returns (returns_get.mpr ⟨rfl, rfl⟩), if_neg hstarts.idle,
    run_bind_of_returns (returns_hasBoundSibling.mpr ⟨rfl, rfl⟩), hstarts.alone]
  rfl

/-- A call that starts an emitter ends in the state in which the emitter ends. -/
theorem ends_evaluateWith_of_starts (hstarts : s.Starts env.graph id pin n)
    (h : Ends env (emit n) s r u) : ∃ r', Ends env (evaluateWith emit id pin) s r' u := by
  simp only [Ends, run_evaluateWith_of_starts hstarts]
  cases r with
  | error e => exact ⟨_, ends_bind_error h⟩
  | ok a =>
    rw [run_bind_of_returns h, run_bind_of_returns (returns_lookup.mpr ⟨rfl, rfl⟩)]
    cases u.binding? pin <;> exact ⟨_, rfl⟩

/-- The evaluation of an output starts an emitter, or it finds out at once how it ends. -/
theorem ends_evaluateWithin (hnone : depth = 0 ∨ ∀ n, ¬ s.Starts env.graph id pin n) :
    ∃ r, Ends env (evaluateWithin depth id pin) s r s := by
  by_cases hstarts : ∃ n, s.Starts env.graph id pin n
  · obtain ⟨n, hstarts⟩ := hstarts
    obtain rfl := hnone.resolve_right fun h ↦ h n hstarts
    rw [evaluateWithin_zero]
    exact ends_evaluateWith_of_starts hstarts (r := .error _) rfl
  · obtain ⟨r, hends⟩ := ends_evaluateWith_of_not_starts (not_exists.mp hstarts)
    cases depth with
    | zero =>
      rw [evaluateWithin_zero]
      exact ⟨r, hends _⟩
    | succ depth =>
      rw [evaluateWithin_succ]
      exact ⟨r, hends _⟩

theorem ends_evaluateWithin_succ (hstarts : s.Starts env.graph id pin n)
    (h : Ends env (emitKind (evaluateWithin depth) n) (s.beginNode n.id) r u) :
    ∃ r', Ends env (evaluateWithin (depth + 1) id pin) s r' (u.endNode n.id) := by
  rw [evaluateWithin_succ]
  refine ends_evaluateWith_of_starts hstarts (r := r) ?_
  rw [Ends, Lock.Lockstep.run_runNode, h]
  cases r <;> rfl

end Evaluation

theorem demandable (env : EmitEnv) (depth : Nat) : Demandable env depth := by
  induction depth with
  | zero =>
    intro own? id pin hsource s
    have hends : ∃ r, Ends env (evaluateWithin 0 id pin) s r s := ends_evaluateWithin (.inl rfl)
    obtain ⟨r, hends⟩ := hends
    exact ⟨[], [], r, s, .refl _, .find hsource (.inl rfl) hends⟩
  | succ depth ih =>
    intro own? id pin hsource s
    by_cases hstarts : ∃ n, s.Starts env.graph id pin n
    · obtain ⟨n, hstarts⟩ := hstarts
      obtain ⟨names, hnames, hemit⟩ := traceable_emitKind ih n
      obtain ⟨names', τ, r, u, hsub, htraced⟩ := hemit (s.beginNode n.id)
      obtain ⟨r', hends⟩ := ends_evaluateWithin_succ hstarts (htraced.ends fun _ _ ↦ rfl)
      exact ⟨[], _, r', _, .refl _, .start hsource hstarts htraced
        (fun hlaidOut hdistinct ↦ (hnames hlaidOut hdistinct).sublist hsub) hends⟩
    · have hends : ∃ r, Ends env (evaluateWithin (depth + 1) id pin) s r s :=
        ends_evaluateWithin (.inr (not_exists.mp hstarts))
      obtain ⟨r, hends⟩ := hends
      exact ⟨[], [], r, s, .refl _, .find hsource (.inr (not_exists.mp hstarts)) hends⟩

end ShaderGraph
