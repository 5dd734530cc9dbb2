import ShaderGraph.Proofs.Data.Lists
import ShaderGraph.Proofs.Scope.Code
import ShaderGraph.Proofs.Source.Lines

/-!
# Growth of stages

A run that is emitting code appends to the active body of each stage and binds pins on top of those
that were bound. `Growth` describes a run by the code that it writes in each stage, the temporaries
that it takes and those among them that are left for an enclosing construct to declare.
-/

namespace ShaderGraph

/-- Temporaries that are visible where the code of each stage goes on. -/
abbrev Visible := ShaderStage → List String

/-- The names are visible in both stages. -/
def Visible.Holds (Γ : Visible) (names : List String) : Prop :=
  ∀ stage, names ⊆ Γ stage

/-- The variable stands for a value where `Γ` is visible. It is a texture only where `P` grants that. -/
structure Variable.InScope (Γ : List String) (P : Prop) (v : Variable) : Prop where
  quiet : Quiet Γ v.name
  texture : v.type.isTexture → IsWord v.name ∧ P

namespace Variable.InScope

variable {Γ Δ : List String} {P Q : Prop} {v : Variable}

theorem mono (h : v.InScope Γ P) (hsub : Γ ⊆ Δ) : v.InScope Δ P :=
  ⟨h.quiet.mono hsub, h.texture⟩

theorem imp (h : v.InScope Γ P) (hPQ : P → Q) : v.InScope Γ Q :=
  ⟨h.quiet, fun htexture ↦ (h.texture htexture).imp_right hPQ⟩

end Variable.InScope

theorem quiet_temporary {Γ : List String} {k : Nat} (h : temporary k ∈ Γ) : Quiet Γ (temporary k) :=
  .of_word (isWord_temporary k) fun _ ↦ h

theorem inScope_temporary {Γ : List String} {P : Prop} {k : Nat} {t : ValueType}
    (h : temporary k ∈ Γ) (ht : t.isTexture → P) : (⟨temporary k, t⟩ : Variable).InScope Γ P :=
  ⟨quiet_temporary h, fun htexture ↦ ⟨isWord_temporary k, ht htexture⟩⟩

/-- More temporaries may be visible to code than it takes. -/
theorem Code.mono {types Γ Δ locals declared : List String} {ts : List Token} {slots : List Nat}
    (h : Code types Γ ts locals declared slots) (hsub : Γ ⊆ Δ) :
    Code types Δ ts locals declared slots := by
  induction h generalizing Δ with
  | nil => exact .nil
  | append _ _ ih ih' => exact .append (ih hsub) (ih' (List.append_subset.mpr
      ⟨List.subset_append_left .., fun x hx ↦ List.mem_append_right _ (hsub hx)⟩))
  | statement h hend => exact .statement (h.mono hsub) hend
  | declare htype hv => exact .declare htype hv
  | define hpre htype hv he => exact .define hpre htype hv (he.mono hsub)
  | assign hv htemporary hop he => exact .assign (hsub hv) htemporary hop (he.mono hsub)
  | output hpre hw hother he => exact .output hpre hw hother (he.mono hsub)
  | slot hpre he => exact .slot hpre (he.mono hsub)
  | block hhead _ ih => exact .block (hhead.mono hsub) (ih hsub)
  | @loop _ _ _ _ c _ _ htype hc htest _ ih =>
    have hcons := List.cons_subset_cons c hsub
    exact .loop htype hc (htest.mono hcons) (ih hcons)

namespace StageShader

/-- The bodies that are being written, the active one first. -/
def buffers (s : StageShader) : List CodeBuffer :=
  s.captures ++ [s.main]

theorem buffers_ne_nil (s : StageShader) : s.buffers ≠ [] := by
  simp [buffers]

theorem buffers_modifyBody {s : StageShader} {f : CodeBuffer → CodeBuffer} {b : CodeBuffer}
    {rest : List CodeBuffer} (h : s.buffers = b :: rest) :
    (s.modifyBody f).buffers = f b :: rest := by
  unfold modifyBody
  cases hcaptures : s.captures <;> simp_all [buffers]

theorem endCapture_of_buffers {s : StageShader} {b c : CodeBuffer} {rest : List CodeBuffer}
    (h : s.buffers = b :: c :: rest) :
    s.endCapture.1 = b.text ∧ s.endCapture.2.buffers = c :: rest := by
  unfold endCapture
  cases hcaptures : s.captures <;> simp_all [buffers]

theorem captures_eq_nil_iff {s : StageShader} :
    s.captures = [] ↔ s.buffers.length = 1 := by
  simp [buffers]

/-- What is known of a stage while its code is being written where `Γ` is visible. Only pins in `T` are
bound to textures. -/
structure Sound (T : PinId → Prop) (Γ : List String) (s : StageShader) : Prop where
  endsApart : ∀ b ∈ s.buffers, EndsApart b.text
  bindings : ∀ b ∈ s.bindings, b.2.InScope Γ (T b.1)
  outer : ∀ b ∈ s.outer, b.2.InScope [] (T b.1)
  attributes : ∀ a ∈ s.attributes, a.2.InScope [] False

variable {T : PinId → Prop}

theorem Sound.mono {Γ Δ : List String} {s : StageShader} (h : s.Sound T Γ) (hsub : Γ ⊆ Δ) :
    s.Sound T Δ :=
  ⟨h.endsApart, fun b hb ↦ (h.bindings b hb).mono hsub, h.outer, h.attributes⟩

theorem Sound.binding {Γ : List String} {s : StageShader} (h : s.Sound T Γ) {pin : PinId}
    {v : Variable} (hv : s.binding? pin = some v) : v.InScope Γ (T pin) := by
  unfold binding? at hv
  rw [Option.or_eq_some_iff] at hv
  obtain hv | ⟨-, hv⟩ := hv
  · exact h.bindings _ (entry_mem_of_lookup hv)
  · exact (h.outer _ (entry_mem_of_lookup hv)).mono (List.nil_subset Γ)

/-- Nothing that has to do with bodies and bindings differs. -/
structure SameCode (s t : StageShader) : Prop where
  captures : t.captures = s.captures
  main : t.main = s.main
  scopes : t.scopes = s.scopes
  bindings : t.bindings = s.bindings
  outer : t.outer = s.outer
  attributes : t.attributes = s.attributes

namespace SameCode

variable {s t u : StageShader}

theorem refl (s : StageShader) : s.SameCode s :=
  ⟨rfl, rfl, rfl, rfl, rfl, rfl⟩

theorem trans (h : s.SameCode t) (h' : t.SameCode u) : s.SameCode u :=
  ⟨h'.captures.trans h.captures, h'.main.trans h.main, h'.scopes.trans h.scopes,
    h'.bindings.trans h.bindings, h'.outer.trans h.outer, h'.attributes.trans h.attributes⟩

theorem buffers (h : s.SameCode t) : t.buffers = s.buffers := by
  rw [StageShader.buffers, h.captures, h.main, StageShader.buffers]

theorem modifyBlock (s : StageShader) (b : Block) (f : CodeBuffer → CodeBuffer) :
    s.SameCode (s.modifyBlock b f) := by
  cases b <;> exact ⟨rfl, rfl, rfl, rfl, rfl, rfl⟩

theorem declare (s : StageShader) (name : String) : s.SameCode (s.declare name) := by
  unfold StageShader.declare
  split <;> exact ⟨rfl, rfl, rfl, rfl, rfl, rfl⟩

theorem defineScript (s : StageShader) (name signature : String) :
    s.SameCode (s.defineScript name signature) :=
  ⟨rfl, rfl, rfl, rfl, rfl, rfl⟩

theorem sound {Γ : List String} (h : s.SameCode t) (hs : s.Sound T Γ) : t.Sound T Γ where
  endsApart b hb := hs.endsApart b (h.buffers ▸ hb)
  bindings b hb := hs.bindings b (h.bindings ▸ hb)
  outer b hb := hs.outer b (h.outer ▸ hb)
  attributes a ha := hs.attributes a (h.attributes ▸ ha)

end SameCode

/-- The active body has grown by code, and pins were bound on top of those that were bound. -/
structure Grows (types Γ : List String) (s t : StageShader) (locals declared : List String)
    (slots : List Nat) : Prop where
  code : ∃ b c rest ts, s.buffers = b :: rest ∧ t.buffers = c :: rest ∧ b.Grows c ts ∧
    Code types Γ ts locals declared slots
  scopes : t.scopes = s.scopes
  bindings : s.bindings <:+ t.bindings

namespace Grows

variable {types Γ locals declared locals' declared' : List String} {slots slots' : List Nat}
  {s t u : StageShader}

/-- Without a change of the bodies no code is written. -/
theorem of_buffers (hs : ∀ b ∈ s.buffers, EndsApart b.text) (hbuffers : t.buffers = s.buffers)
    (hscopes : t.scopes = s.scopes) (hbindings : s.bindings <:+ t.bindings) :
    s.Grows types Γ t [] [] [] where
  code := by
    obtain ⟨b, rest, hcons⟩ := List.exists_cons_of_ne_nil s.buffers_ne_nil
    have hends : EndsApart b.text := hs b (by simp [hcons])
    exact ⟨b, b, rest, [], hcons, hbuffers.trans hcons, .refl hends, .nil⟩
  scopes := hscopes
  bindings := hbindings

theorem of_sameCode (hs : s.Sound T Γ) (h : s.SameCode t) : s.Grows types Γ t [] [] [] :=
  of_buffers hs.endsApart h.buffers h.scopes (by simp [h.bindings])

theorem trans (h : s.Grows types Γ t locals declared slots)
    (h' : t.Grows types (locals ++ Γ) u locals' declared' slots') :
    s.Grows types Γ u (locals' ++ locals) (declared ++ declared') (slots ++ slots') where
  code := by
    obtain ⟨b, c, rest, ts, hs, ht, hgrows, hcode⟩ := h.code
    obtain ⟨c', d, rest', us, ht', hu, hgrows', hcode'⟩ := h'.code
    obtain ⟨rfl, rfl⟩ := List.cons.inj (ht.symm.trans ht')
    exact ⟨b, d, rest, ts ++ us, hs, hu, hgrows.trans hgrows', hcode.append hcode'⟩
  scopes := h'.scopes.trans h.scopes
  bindings := h.bindings.trans h'.bindings

theorem bind (hs : ∀ b ∈ s.buffers, EndsApart b.text) (pin : PinId) (v : Variable) :
    s.Grows types Γ (s.bind pin v) [] [] [] :=
  of_buffers hs rfl rfl (List.suffix_cons _ _)

theorem length_buffers (h : s.Grows types Γ t locals declared slots) :
    t.buffers.length = s.buffers.length := by
  obtain ⟨b, c, rest, ts, hs, ht, -⟩ := h.code
  simp [hs, ht]

/-- Writing code to the active body. -/
theorem modifyBody {f : CodeBuffer → CodeBuffer} {ts : List Token}
    (hs : ∀ b ∈ s.buffers, EndsApart b.text)
    (hf : ∀ b : CodeBuffer, EndsApart b.text → b.Grows (f b) ts)
    (hcode : Code types Γ ts locals declared slots) :
    s.Grows types Γ (s.modifyBody f) locals declared slots where
  code := by
    obtain ⟨b, rest, hbuffers⟩ := List.exists_cons_of_ne_nil s.buffers_ne_nil
    have hends : EndsApart b.text := hs b (by simp [hbuffers])
    exact ⟨b, f b, rest, ts, hbuffers, buffers_modifyBody hbuffers, hf b hends, hcode⟩
  scopes := by
    unfold StageShader.modifyBody
    split <;> rfl
  bindings := by
    unfold StageShader.modifyBody
    split <;> exact List.suffix_refl _

end Grows

end StageShader

namespace EmitState

/-- What is known of an emission while code is being written. Nothing is captured in the vertex stage
while the pixel stage is being written, so that values can be carried over outside of all blocks. -/
structure Sound (T : PinId → Prop) (Γ : Visible) (s : EmitState) : Prop where
  shaders : ∀ stage, (s.shader stage).Sound T (Γ stage)
  vertex : s.stage = .pixel → s.vertex.captures = []
  samplers : ∀ e ∈ s.samplers.values, IsPlainWord e.name

variable {T : PinId → Prop}

theorem Sound.binding {Γ : Visible} {s : EmitState} (h : Sound T Γ s) {pin : PinId} {v : Variable}
    (hv : s.binding? pin = some v) : v.InScope (Γ s.stage) (T pin) :=
  (h.shaders s.stage).binding hv

/-- What is known of an emission is known when it turns to the vertex stage. -/
theorem Sound.enter {Γ : Visible} {s : EmitState} (hs : s.Sound T Γ) :
    ({ s with stage := .vertex } : EmitState).Sound T Γ where
  shaders stage := by
    have hshader := hs.shaders stage
    cases stage <;> exact hshader
  vertex hstage := by cases hstage
  samplers := hs.samplers

/-- Nothing that has to do with bodies, bindings and counters differs. -/
structure SameCode (s t : EmitState) : Prop where
  stage : t.stage = s.stage
  nextVariable : t.nextVariable = s.nextVariable
  interpolators : t.interpolators = s.interpolators
  samplers : t.samplers = s.samplers
  shaders : ∀ stage, (s.shader stage).SameCode (t.shader stage)

namespace SameCode

variable {s t u : EmitState}

theorem refl (s : EmitState) : s.SameCode s :=
  ⟨rfl, rfl, rfl, rfl, fun _ ↦ .refl _⟩

theorem trans (h : s.SameCode t) (h' : t.SameCode u) : s.SameCode u :=
  ⟨h'.stage.trans h.stage, h'.nextVariable.trans h.nextVariable, h'.interpolators.trans h.interpolators,
    h'.samplers.trans h.samplers, fun stage ↦ (h.shaders stage).trans (h'.shaders stage)⟩

theorem modifyShader {stage : ShaderStage} {f : StageShader → StageShader}
    (h : (s.shader stage).SameCode (f (s.shader stage))) : s.SameCode (s.modifyShader stage f) where
  stage := stage_modifyShader s stage f
  nextVariable := nextVariable_modifyShader s stage f
  interpolators := interpolators_modifyShader s stage f
  samplers := samplers_modifyShader s stage f
  shaders other := by
    by_cases hother : other = stage
    · subst hother
      simpa using h
    · rw [shader_modifyShader_of_ne s f hother]
      exact .refl _

end SameCode

/-- The slots that are written in a stage if `m` slots from `first` on are. -/
def writtenSlots (first m : Nat) : ShaderStage → List Nat
  | .vertex => List.range' first m
  | .pixel => []

/-- Names of `k` temporaries from `first` on. -/
def temporaries (first k : Nat) : List String :=
  (List.range' first k).map temporary

theorem temporaries_add (first j k : Nat) :
    temporaries first (j + k) = temporaries first j ++ temporaries (first + j) k := by
  rw [temporaries, ← List.range'_append_1, List.map_append]
  rfl

/-- The run from `s` to `t` writes code in each stage. It takes `k` temporaries and carries `m` values
over to the pixel stage. Before the run the declarations of the temporaries `owed` are still to be
written, after it those of `left` are. -/
structure Growth (types : List String) (Γ : Visible) (s t : EmitState) (locals declared : Visible)
    (owed left : List String) (k m : Nat) : Prop where
  stage : t.stage = s.stage
  nextVariable : t.nextVariable = s.nextVariable + k
  interpolators : t.interpolators = s.interpolators + m
  vertex : s.stage = .vertex → m = 0
  shaders : ∀ stage, (s.shader stage).Grows types (Γ stage) (t.shader stage) (locals stage)
    (declared stage) (writtenSlots s.interpolators m stage)
  names : (declared .vertex ++ declared .pixel ++ left).Perm (owed ++ temporaries s.nextVariable k)

namespace Growth

variable {types : List String} {Γ locals declared locals' declared' : Visible}
  {owed left left' : List String} {k m k' m' : Nat} {s t u : EmitState}

theorem of_sameCode (hs : s.Sound T Γ) (h : s.SameCode t) :
    Growth types Γ s t (fun _ ↦ []) (fun _ ↦ []) [] [] 0 0 where
  stage := h.stage
  nextVariable := h.nextVariable
  interpolators := h.interpolators
  vertex _ := rfl
  shaders stage := by
    have hgrows : (s.shader stage).Grows types (Γ stage) (t.shader stage) [] [] [] :=
      .of_sameCode (hs.shaders stage) (h.shaders stage)
    cases stage <;> exact hgrows
  names := .refl _

theorem writtenSlots_add (first m m' : Nat) (stage : ShaderStage) :
    writtenSlots first (m + m') stage =
      writtenSlots first m stage ++ writtenSlots (first + m) m' stage := by
  cases stage
  · exact List.range'_append_1.symm
  · rfl

theorem trans (h : Growth types Γ s t locals declared owed left k m)
    (h' : Growth types (fun stage ↦ locals stage ++ Γ stage) t u locals' declared' left left' k' m') :
    Growth types Γ s u (fun stage ↦ locals' stage ++ locals stage)
      (fun stage ↦ declared stage ++ declared' stage) owed left' (k + k') (m + m') where
  stage := h'.stage.trans h.stage
  nextVariable := by
    rw [h'.nextVariable, h.nextVariable, Nat.add_assoc]
  interpolators := by
    rw [h'.interpolators, h.interpolators, Nat.add_assoc]
  vertex hstage := by
    rw [h.vertex hstage, h'.vertex (h.stage.trans hstage)]
  shaders stage := by
    rw [writtenSlots_add, ← h.interpolators]
    exact (h.shaders stage).trans (h'.shaders stage)
  names := by
    have hfirst := h.names
    have hsecond := h'.names
    rw [temporaries_add, ← h.nextVariable]
    simp only [List.perm_iff_count, List.count_append] at hfirst hsecond ⊢
    intro name
    have hfirst := hfirst name
    have hsecond := hsecond name
    omega

/-- Other declarations may be left to be written all the while. -/
theorem frame (h : Growth types Γ s t locals declared owed left k m) (other : List String) :
    Growth types Γ s t locals declared (other ++ owed) (other ++ left) k m :=
  { h with
    names := by
      have hnames := h.names
      simp only [List.perm_iff_count, List.count_append] at hnames ⊢
      intro name
      have hname := hnames name
      omega }

/-- No value is carried over from the stage that is being written. -/
theorem writtenSlots_stage (h : Growth types Γ s t locals declared owed left k m) :
    writtenSlots s.interpolators m s.stage = [] := by
  cases hstage : s.stage with
  | vertex =>
    rw [h.vertex hstage]
    rfl
  | pixel => rfl

theorem captures_vertex (h : Growth types Γ s t locals declared owed left k m)
    (hs : s.vertex.captures = []) : t.vertex.captures = [] := by
  have hlength := (h.shaders .vertex).length_buffers
  rw [StageShader.captures_eq_nil_iff] at hs ⊢
  exact hlength.trans hs

end Growth

/-- The run from `s`, where `Γ` is visible, to `t`, where `Δ` is visible, writes code that declares
all temporaries that the run takes. -/
def Extends (T : PinId → Prop) (types : List String) (Γ Δ : Visible) (s t : EmitState) : Prop :=
  t.Sound T Δ ∧ ∃ locals declared k m, Δ = (fun stage ↦ locals stage ++ Γ stage) ∧
    Growth types Γ s t locals declared [] [] k m

namespace Extends

variable {types : List String} {Γ Δ Θ : Visible} {s t u : EmitState}

theorem of_sameCode (hs : s.Sound T Γ) (h : s.SameCode t) : Extends T types Γ Γ s t := by
  refine ⟨⟨fun stage ↦ (h.shaders stage).sound (hs.shaders stage), fun hstage ↦ ?_,
    h.samplers ▸ hs.samplers⟩, _, _, _, _, rfl, .of_sameCode hs h⟩
  have hcaptures := (h.shaders .vertex).captures
  exact hcaptures.trans (hs.vertex (h.stage.symm.trans hstage))

theorem refl (hs : s.Sound T Γ) : Extends T types Γ Γ s s :=
  .of_sameCode hs (.refl s)

theorem trans (h : Extends T types Γ Δ s t) (h' : Extends T types Δ Θ t u) : Extends T types Γ Θ s u := by
  obtain ⟨-, locals, declared, k, m, rfl, hgrowth⟩ := h
  obtain ⟨hsound, locals', declared', k', m', rfl, hgrowth'⟩ := h'
  refine ⟨hsound, _, _, _, _, ?_, hgrowth.trans hgrowth'⟩
  simp

theorem sound (h : Extends T types Γ Δ s t) : t.Sound T Δ :=
  h.1

theorem stage (h : Extends T types Γ Δ s t) : t.stage = s.stage := by
  obtain ⟨-, locals, declared, k, m, -, hgrowth⟩ := h
  exact hgrowth.stage

theorem subset (h : Extends T types Γ Δ s t) (stage : ShaderStage) : Γ stage ⊆ Δ stage := by
  obtain ⟨-, locals, declared, k, m, rfl, -⟩ := h
  exact List.subset_append_right ..

theorem holds (h : Extends T types Γ Δ s t) {names : List String} (hΓ : Γ.Holds names) :
    Δ.Holds names :=
  fun stage ↦ List.Subset.trans (hΓ stage) (h.subset stage)

end Extends

end EmitState

end ShaderGraph
