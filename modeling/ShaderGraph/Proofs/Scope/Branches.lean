import ShaderGraph.Proofs.Emission.Inputs
import ShaderGraph.Proofs.Graph.Upstream
import ShaderGraph.Proofs.Scope.Lines

/-!
# Branches in scope

The arms of a branch are captured one after another before the construct around them is written. What
the arms declare is owed until then, and the construct declares it within their blocks.
-/

namespace ShaderGraph

open EmitM Emitter

/-! ## Inputs

What an emitter has at hand is in scope where its code goes on, if the demands that it makes write
scoped code.
-/

/-- A word that is no temporary except for those in `names`. -/
def IsWordAmong (names : List String) (s : String) : Prop :=
  IsWord s ∧ (isTemporary s → s ∈ names)

theorem IsWordAmong.mono {names more : List String} {s : String} (h : IsWordAmong names s)
    (hsub : names ⊆ more) : IsWordAmong more s :=
  ⟨h.1, fun htemporary ↦ hsub (h.2 htemporary)⟩

theorem IsWordAmong.quiet {names : List String} {s : String} (h : IsWordAmong names s) :
    Quiet names s :=
  .of_word h.1 h.2

theorem IsPlainWord.among {s : String} (h : IsPlainWord s) (names : List String) :
    IsWordAmong names s :=
  ⟨h.1, fun htemporary ↦ by simp [h.2] at htemporary⟩

/-- Where the names are visible, the demand of an output upstream of the node writes scoped code, in which
the types of declarations are spelled as given, and returns a value that is in scope after it. It is a
texture only if the output is in `T`. -/
def Demand.IsScoped (env : EmitEnv) (T : PinId → Prop) (types base : List String) (n : Node)
    (demand : Demand) : Prop :=
  ∀ (o : OutputRef), (∃ p ∈ n.inputs, env.graph.Upstream NodeKind.isInterpolator p.id o) →
    ∀ s v t, Returns env (demand o.node o.pin) s v t → ∀ Γ : Visible, Γ.Holds base → s.Sound T Γ →
      ∃ Δ, EmitState.Extends T types Γ Δ s t ∧ v.InScope (Δ t.stage) (T o.pin)

/-- An output in `T` drives the input. -/
def Graph.TakesTexture (g : Graph) (T : PinId → Prop) (n : Node) (pin : String) : Prop :=
  ∃ p c, n.input? pin = some p ∧ g.driver? p.id = some c ∧ T c.fromPin

/-- The node is a parameter that is a texture, or an output in `T` drives one of its inputs. -/
def Graph.HoldsTexture (g : Graph) (T : PinId → Prop) (n : Node) : Prop :=
  (∃ name type, n.kind = .uniform name type ∧ type.isTexture) ∨ ∃ pin, g.TakesTexture T n pin

/-- The list names the types of which the node may declare temporaries, and `T` has the outputs that the
node may bind to textures, if no others do. -/
structure Node.KeepsTypes (env : EmitEnv) (T : PinId → Prop) (types : List String) (n : Node) :
    Prop where
  numeric : ∀ t name, t.isNumeric → env.dialect.typeName? t = some name → name ∈ types
  forwarded : n.kind.forwards → env.graph.HoldsTexture T n → ∀ p ∈ n.outputs, T p.id
  /-- A switch without cases declares a temporary of whatever type its default has. -/
  copied : ∀ hint, n.kind = .switch [] hint → env.graph.TakesTexture T n "Default" →
    (∀ t name, env.dialect.typeName? t = some name → name ∈ types) ∧ ∀ p ∈ n.outputs, T p.id

/-- What is at hand is in scope where `Γ` is visible, and is a texture only where `P` grants that. -/
structure Held.Sound (Γ : List String) (P : Prop) (H : Held) : Prop where
  values : ∀ v ∈ H.values, v.InScope Γ P
  operands : ∀ v ∈ H.operands, Quiet Γ v.name
  names : ∀ name ∈ H.names, Quiet Γ name

namespace Held.Sound

variable {Γ Δ : List String} {P : Prop} {H : Held}

theorem empty : Sound Γ P {} :=
  ⟨by simp, by simp, by simp⟩

theorem mono (h : H.Sound Γ P) (hsub : Γ ⊆ Δ) : H.Sound Δ P :=
  ⟨fun v hv ↦ (h.values v hv).mono hsub, fun v hv ↦ (h.operands v hv).mono hsub,
    fun name hname ↦ (h.names name hname).mono hsub⟩

theorem texts (h : H.Sound Γ P) : ∀ text ∈ H.texts, Quiet Γ text := by
  intro text htext
  simp only [Held.texts, List.mem_append, List.mem_map] at htext
  obtain (⟨v, hv, rfl⟩ | ⟨v, hv, rfl⟩) | hname := htext
  · exact (h.values v hv).quiet
  · exact h.operands v hv
  · exact h.names text hname

theorem forms (h : H.Sound Γ P) {text : String} (hform : H.Forms text) : Quiet Γ text :=
  hform.phrase.quiet h.texts

theorem computes (h : H.Sound Γ P) {b : Backend} {expr : String} (hexpr : H.Computes b.dialect expr) :
    Quiet Γ expr :=
  (hexpr.phrase fun _ htext ↦ (h.forms htext).isBraceFree).quiet h.texts

theorem read (h : H.Sound Γ P) {pin : String} {value? : Option Variable}
    (hvalue : ∀ v ∈ value?, v.InScope Γ P) : (H.read pin value?).Sound Γ P where
  values v hv := by
    rcases List.mem_append.mp hv with hv | hv
    · exact hvalue v (by simpa using hv)
    · exact h.values v hv
  operands := h.operands
  names := h.names

theorem addValue (h : H.Sound Γ P) {v : Variable} (hv : v.InScope Γ P) : (H.addValue v).Sound Γ P :=
  ⟨by simpa using ⟨hv, h.values⟩, h.operands, h.names⟩

theorem addOperand (h : H.Sound Γ P) {text : String} {t : ValueType} (htext : Quiet Γ text) :
    (H.addOperand text t).Sound Γ P :=
  ⟨h.values, by simpa using ⟨htext, h.operands⟩, h.names⟩

theorem addName (h : H.Sound Γ P) {name : String} (hname : Quiet Γ name) : (H.addName name).Sound Γ P :=
  ⟨h.values, h.operands, by simpa using ⟨hname, h.names⟩⟩

theorem addParameter (h : H.Sound Γ P) {v : Variable} (hv : v.InScope Γ P) : (H.addParameter v).Sound Γ P :=
  ⟨by simpa using ⟨hv, h.values⟩, h.operands, h.names⟩

theorem addPins (h : H.Sound Γ P) (pins : List String) : (H.addPins pins).Sound Γ P :=
  ⟨h.values, h.operands, h.names⟩

theorem addStage (h : H.Sound Γ P) (stage : ShaderStage) : (H.addStage stage).Sound Γ P :=
  ⟨h.values, h.operands, h.names⟩

end Held.Sound

theorem Literal.isVector_type (l : Literal) : l.type.isVector := by
  cases l <;> rfl

theorem inScope_of_isVector {Γ : List String} {P : Prop} {text : String} {t : ValueType}
    (htext : Quiet Γ text) (ht : t.isVector) : (⟨text, t⟩ : Variable).InScope Γ P :=
  ⟨htext, fun h ↦ by simp [ValueType.isTexture_of_isVector ht] at h⟩

section Demands

variable {env : EmitEnv} {demand : Demand} {n : Node} {s t : EmitState} {pin : String} {Γ : Visible}
  {T : PinId → Prop} {types base : List String}

/-- Values of inputs are in scope. -/
theorem inputValue?_extends (hdemand : demand.IsScoped env T types base n) {value? : Option Variable}
    (h : Returns env (inputValue? demand n pin) s value? t) (hΓ : Γ.Holds base)
    (hs : s.Sound T Γ) :
    ∃ Δ, EmitState.Extends T types Γ Δ s t ∧
      ∀ v ∈ value?, v.InScope (Δ t.stage) (env.graph.TakesTexture T n pin) := by
  unfold inputValue? at h
  split at h
  · next p hp =>
    simp only [returns_bind, returns_read] at h
    obtain ⟨_, s₁, ⟨rfl, rfl⟩, h⟩ := h
    split at h
    · next c hc =>
      simp only [returns_bind, returns_pure] at h
      obtain ⟨v, s₂, hv, rfl, rfl⟩ := h
      obtain ⟨Δ, hextends, hscope⟩ :=
        hdemand c.source ⟨p, List.mem_of_find?_eq_some hp, .driver hc⟩ _ _ _ hv Γ hΓ hs
      refine ⟨Δ, hextends, fun w hw ↦ ?_⟩
      obtain rfl := Option.mem_some.mp hw
      exact hscope.imp fun htexture ↦ ⟨p, c, hp, hc, htexture⟩
    · split at h
      · next l _ =>
        simp only [returns_bind, returns_dialect, returns_pure] at h
        obtain ⟨_, s₂, ⟨rfl, rfl⟩, rfl, rfl⟩ := h
        refine ⟨Γ, .refl hs, fun v hv ↦ ?_⟩
        obtain rfl := Option.mem_some.mp hv
        exact inScope_of_isVector (env.settings.backend.quiet_vectorLiteral l.components)
          l.isVector_type
      · split at h
        · obtain ⟨rfl, rfl⟩ := returns_pure.mp h
          exact ⟨Γ, .refl hs, by simp⟩
        · exact absurd h returns_throw
  · exact absurd h returns_throw

theorem requireInput_extends (hdemand : demand.IsScoped env T types base n) {v : Variable}
    (h : Returns env (requireInput demand n pin) s v t) (hΓ : Γ.Holds base) (hs : s.Sound T Γ) :
    ∃ Δ, EmitState.Extends T types Γ Δ s t ∧
      v.InScope (Δ t.stage) (env.graph.TakesTexture T n pin) := by
  simp only [requireInput, returns_bind] at h
  obtain ⟨value?, t', hread, h⟩ := h
  obtain ⟨Δ, hextends, hvalue⟩ := inputValue?_extends hdemand hread hΓ hs
  cases value? with
  | none => exact absurd h returns_throw
  | some w =>
    obtain ⟨rfl, rfl⟩ := returns_pure.mp h
    exact ⟨Δ, hextends, hvalue v rfl⟩

end Demands

/-! ## Arms -/

section Captures

variable {env : EmitEnv} {demand : Demand} {n : Node} {s t : EmitState} {pin : String} {Γ : Visible}
  {T : PinId → Prop} {types base : List String}

/-- The text of a branch is code after which the value of the branch is in scope. It is a texture only
where `P` grants that. -/
def IsBranchCode (types Γ : List String) (P : Prop) (branch : Branch) (declared : List String) : Prop :=
  ∃ locals, Code types Γ (tokens branch.text) locals declared [] ∧
    branch.value.InScope (locals ++ Γ) P

theorem IsBranchCode.imp {Γ : List String} {P Q : Prop} {branch : Branch} {declared : List String}
    (h : IsBranchCode types Γ P branch declared) (hPQ : P → Q) :
    IsBranchCode types Γ Q branch declared := by
  obtain ⟨locals, hcode, hvalue⟩ := h
  exact ⟨locals, hcode, hvalue.imp hPQ⟩

theorem captureBranch_growth (hdemand : demand.IsScoped env T types base n) {branch : Branch}
    (h : Returns env (captureBranch demand n pin) s branch t) (hΓ : Γ.Holds base) (hs : s.Sound T Γ) :
    ∃ (locals declared : Visible) (left : List String) (k m : Nat),
      EmitState.Growth types Γ s t locals declared [] left k m ∧
      locals s.stage = [] ∧ (t.Sound T fun stage ↦ locals stage ++ Γ stage) ∧
      IsBranchCode types (Γ s.stage) (env.graph.TakesTexture T n pin) branch left := by
  simp only [captureBranch, returns_bind, returns_pure] at h
  obtain ⟨⟨v, text⟩, t', hcapture, rfl, rfl⟩ := h
  obtain ⟨u, hinput, rfl, rfl⟩ := returns_capture.mp hcapture
  obtain ⟨Δ, ⟨hsound, locals, declared, k, m, rfl, hgrowth⟩, hvalue⟩ :=
    requireInput_extends hdemand hinput hΓ hs.beginCapture
  refine ⟨_, _, _, _, _, hgrowth.endCapture hs fun _ _ ↦ rfl, by simp [ShaderStage.elsewhere],
    .endCapture hs hgrowth hsound, locals s.stage, ?_, ?_⟩
  · rw [List.append_nil]
    exact hgrowth.code_capturedText
  · rwa [hgrowth.stage, EmitState.stage_beginCapture] at hvalue

theorem captures_growth (hdemand : demand.IsScoped env T types base n) {pins : List String}
    {branches : List Branch} (h : Returns env (pins.mapM (captureBranch demand n)) s branches t)
    (hΓ : Γ.Holds base) (hs : s.Sound T Γ) :
    ∃ (locals declared : Visible) (lefts : List (List String)) (k m : Nat),
      EmitState.Growth types Γ s t locals declared [] lefts.flatten k m ∧
      locals s.stage = [] ∧ (t.Sound T fun stage ↦ locals stage ++ Γ stage) ∧
      List.Forall₂ (IsBranchCode types (Γ s.stage) (∃ pin ∈ pins, env.graph.TakesTexture T n pin))
        branches lefts := by
  induction pins generalizing s Γ branches with
  | nil =>
    obtain ⟨rfl, rfl⟩ := returns_mapM_nil.mp h
    exact ⟨_, _, [], _, _, .of_sameCode hs (.refl _), rfl, hs, .nil⟩
  | cons pin pins ih =>
    obtain ⟨branch, s', branches, hbranch, hrest, rfl⟩ := returns_mapM_cons.mp h
    obtain ⟨locals, declared, left, k, m, hgrowth, hnone, hsound, hcode⟩ :=
      captureBranch_growth hdemand hbranch hΓ hs
    obtain ⟨locals', declared', lefts, k', m', hgrowth', hnone', hsound', hcodes⟩ :=
      ih hrest (fun stage ↦ List.Subset.trans (hΓ stage) (List.subset_append_right ..)) hsound
    rw [hgrowth.stage] at hnone' hcodes
    rw [hnone, List.nil_append] at hcodes
    have hframe := hgrowth'.frame left
    rw [List.append_nil] at hframe
    refine ⟨_, _, left :: lefts, _, _, hgrowth.trans hframe, by simp [hnone, hnone'], ?_,
      .cons (hcode.imp fun htexture ↦ ⟨pin, List.mem_cons_self, htexture⟩)
        (hcodes.imp fun _ _ hcode ↦ hcode.imp fun ⟨pin', hpin', htexture⟩ ↦
          ⟨pin', List.mem_cons_of_mem pin hpin', htexture⟩)⟩
    simpa only [List.append_assoc] using hsound'

end Captures

section Arms

variable {b : Backend} {types Γ Δ : List String} {P Q : Prop} {H : Held} {k : Nat}

/-- Tokens of the block of an arm. -/
def Arm.tokens (output : String) (arm : Arm) : List Token :=
  arm.head.flatMap ShaderGraph.tokens ++ Token.mark "\x7b" ::
    (ShaderGraph.tokens arm.branch.text ++ ShaderGraph.tokens s!"{output} = {arm.value};" ++
      [.mark "\x7d"])

theorem Arm.grows_write {c e : CodeBuffer} {ts : List Token} (output : String) (arm : Arm)
    (h : c.Grows e ts) : c.Grows (arm.write output e) (ts ++ arm.tokens output) := by
  have hgrows := ((((h.lines arm.head).openBlock).splice arm.branch.text).line
    s!"{output} = {arm.value};").closeBlock
  simpa [Arm.write, Arm.tokens] using hgrows

theorem grows_arms {c e : CodeBuffer} {ts : List Token} (output : String) (arms : List Arm)
    (h : c.Grows e ts) :
    c.Grows (arms.foldl (Arm.write output) e) (ts ++ arms.flatMap (Arm.tokens output)) := by
  induction arms generalizing e ts with
  | nil => simpa using h
  | cons arm arms ih => simpa [List.append_assoc] using ih (arm.grows_write output h)

/-- The arms are written behind the declaration of their output. -/
theorem grows_branches (output declaration : String) (attribute? : Option String) (arms : List Arm)
    {b : CodeBuffer} (hb : EndsApart b.text) :
    b.Grows (arms.foldl (Arm.write output)
        (attribute?.toList.foldl CodeBuffer.line (b.line declaration)))
      (ShaderGraph.tokens declaration ++ attribute?.toList.flatMap ShaderGraph.tokens ++
        arms.flatMap (Arm.tokens output)) := by
  simpa using grows_arms output arms (((CodeBuffer.Grows.refl hb).line _).lines attribute?.toList)

theorem Arm.IsHead.inert {line : String} (h : Arm.IsHead H line) (hH : H.Sound Γ P) :
    Token.Inert Γ (ShaderGraph.tokens line) := by
  obtain rfl | hline := h
  · exact (show Quiet [] "else" by decide).inert.mono (List.nil_subset Γ)
  · exact (hline.sentence.quiet hH.texts).inert

/-- The block of an arm is code where the output is visible. -/
theorem Arm.code {arm : Arm} {declared : List String} {type : ValueType}
    (hH : H.Sound Γ P) (hk : temporary k ∈ Γ) (hsub : Δ ⊆ Γ)
    (hhead : arm.head = [] ∨ ∃ line, arm.head = [line] ∧ Arm.IsHead H line)
    (hvalue : arm.branch.value.cast type b.dialect = .ok arm.value)
    (hbranch : IsBranchCode types Δ Q arm.branch declared) :
    Code types Γ (arm.tokens (temporary k)) [] declared [] := by
  obtain ⟨locals, hcode, hscope⟩ := hbranch
  have hinert : Token.Inert Γ (arm.head.flatMap ShaderGraph.tokens) := by
    obtain hnone | ⟨line, hone, hline⟩ := hhead
    · rw [hnone]
      exact ⟨by simp, List.isChain_nil⟩
    · rw [hone]
      simpa using hline.inert hH
  have hquiet : Quiet (locals ++ Γ) arm.value :=
    Variable.quiet_cast b hvalue (hscope.quiet.mono (List.append_subset.mpr
      ⟨List.subset_append_left .., fun x hx ↦ List.mem_append_right _ (hsub hx)⟩))
  have hassign : Code types (locals ++ Γ) (ShaderGraph.tokens s!"{temporary k} = {arm.value};")
      [] [] [] := code_assign (List.mem_append_right locals hk) hquiet
  simpa [Arm.tokens] using Code.block hinert ((hcode.mono hsub).append hassign)

theorem code_arms {arms : List Arm} {lefts : List (List String)} {type : ValueType}
    (hH : H.Sound Γ P) (hk : temporary k ∈ Γ) (hsub : Δ ⊆ Γ)
    (hheads : ∀ arm ∈ arms, arm.head = [] ∨ ∃ line, arm.head = [line] ∧ Arm.IsHead H line)
    (hvalues : ∀ arm ∈ arms, arm.branch.value.cast type b.dialect = .ok arm.value)
    (hbranches : List.Forall₂ (IsBranchCode types Δ Q) (arms.map Arm.branch) lefts) :
    Code types Γ (arms.flatMap (Arm.tokens (temporary k))) [] lefts.flatten [] := by
  induction arms generalizing lefts with
  | nil =>
    cases hbranches
    exact .nil
  | cons arm arms ih =>
    obtain ⟨declared, rest, hbranch, hrest, rfl⟩ := List.forall₂_cons_left_iff.mp hbranches
    have harm := Arm.code hH hk hsub (hheads arm List.mem_cons_self)
      (hvalues arm List.mem_cons_self) hbranch
    have harms := ih (fun a ha ↦ hheads a (List.mem_cons_of_mem arm ha))
      (fun a ha ↦ hvalues a (List.mem_cons_of_mem arm ha)) hrest
    simpa using harm.append harms

end Arms

section Steps

variable {env : EmitEnv} {demand : Demand} {n : Node} {H : Held} {s t u : EmitState} {Γ : Visible}
  {T : PinId → Prop} {types base : List String} {P : Prop}

/-- A texture is the common type of a single branch, whose value it is. -/
theorem isTexture_commonOf {Γ : List String} {P : Prop} {branches : List Branch} {type : ValueType}
    {lefts : List (List String)}
    (htype : ValueType.commonOf (branches.map fun branch ↦ branch.value.type) = .ok type)
    (hbranches : List.Forall₂ (IsBranchCode types Γ P) branches lefts) (htexture : type.isTexture) :
    P := by
  cases hbranches with
  | nil => cases htype
  | @cons branch left rest lefts hbranch hrest =>
    cases hrest with
    | nil =>
      obtain rfl : branch.value.type = type := Except.ok.inj htype
      obtain ⟨locals, -, hvalue⟩ := hbranch
      exact (hvalue.texture htexture).2
    | cons =>
      have hnumeric := ValueType.commonOf_isNumeric htype
      simp [ValueType.isTexture_of_isNumeric hnumeric] at htexture

/-- The captured arms are written within the construct that declares their output. -/
theorem branches_extends (hdemand : demand.IsScoped env T types base n) {pins : List String} {arms : List Arm}
    {name : String} {pin : PinId} {type : ValueType} {attribute? : Option String}
    (h : Returns env (pins.mapM (captureBranch demand n)) s (arms.map Arm.branch) t)
    (htype : ValueType.commonOf (arms.map fun arm ↦ arm.branch.value.type) = .ok type)
    (hname : env.dialect.typeName? type = some name)
    (hkeeps : (type.isTexture → ∃ pin ∈ pins, env.graph.TakesTexture T n pin) →
      name ∈ types ∧ (type.isTexture → T pin))
    (hattribute : ∀ line ∈ attribute?, env.dialect.flattenAttribute? = some line ∨
      env.dialect.branchAttribute? = some line)
    (hheads : ∀ arm ∈ arms, arm.head = [] ∨ ∃ line, arm.head = [line] ∧ Arm.IsHead H line)
    (hvalues : ∀ arm ∈ arms, arm.branch.value.cast type env.dialect = .ok arm.value)
    (hΓ : Γ.Holds base) (hs : s.Sound T Γ) (hH : H.Sound (Γ s.stage) P) :
    ∃ Δ, EmitState.Extends T types Γ Δ s
      ((t.allocate pin type).modifyBody fun b ↦
        arms.foldl (Arm.write (temporary t.nextVariable))
          (attribute?.toList.foldl CodeBuffer.line
            (b.line s!"{name} {temporary t.nextVariable};"))) := by
  obtain ⟨locals, declared, lefts, k, m, hgrowth, hnone, hsound, hbranches⟩ :=
    captures_growth hdemand h hΓ hs
  obtain ⟨hmem, hbound⟩ := hkeeps (isTexture_commonOf (by rwa [List.map_map]) hbranches)
  have hlocals : locals t.stage ++ Γ t.stage = Γ s.stage := by
    rw [hgrowth.stage, hnone, List.nil_append]
  have hvisible : temporary t.nextVariable ∈ temporary t.nextVariable :: Γ s.stage :=
    List.mem_cons_self
  have hsub : Γ s.stage ⊆ temporary t.nextVariable :: Γ s.stage := List.subset_cons_self ..
  have hattributes : ∀ line ∈ attribute?, env.dialect.flattenAttribute? = some line ∨
      env.dialect.branchAttribute? = some line ∨ env.dialect.unrollAttribute? = some line :=
    fun line hline ↦ (hattribute line hline).imp_right .inl
  have hcode := ((code_declare hname hmem).append (code_attribute? hattributes)).append
    (code_arms (b := env.settings.backend) (hH.mono hsub) hvisible hsub hheads hvalues hbranches)
  rw [← hlocals] at hcode
  have hgrows (b : CodeBuffer) (hb : EndsApart b.text) := grows_branches
    (temporary t.nextVariable) s!"{name} {temporary t.nextVariable};" attribute? arms hb
  have hallocate := EmitState.Growth.allocate hsound pin type lefts.flatten hgrows
    (by simpa using hcode)
  refine ⟨_, hsound.allocate pin type hbound hgrows, _, _, _, _, ?_, hgrowth.trans hallocate⟩
  rw [← Visible.only_append]
  simp

end Steps

end ShaderGraph
