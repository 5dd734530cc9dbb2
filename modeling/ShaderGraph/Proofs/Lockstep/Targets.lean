import ShaderGraph.Proofs.Graph.Editing
import ShaderGraph.Proofs.Lockstep.Program

/-!
# Compilations for several targets

What a target cannot express makes a compilation fail. Apart from that, the compilations of one graph
for two targets go on alike: they succeed together, and their programs agree in everything that a renderer
binds. The names that the compiler makes up differ in the reserved prefix.
-/

namespace ShaderGraph

/-! ## What targets express -/

/-- The other targets can express what GLSL ES can, and the same as one another. -/
theorem Backend.supportedBy {b b' : Backend} (h : b = .glslEs ∨ b' ≠ .glslEs) :
    b.dialect.SupportedBy b'.dialect := by
  constructor
  case templates =>
    intro t s hs
    have hcompare {s s' : SampleTemplates} (h : s.sampleCompare?.map CompareTemplate.coordinate =
        s'.sampleCompare?.map CompareTemplate.coordinate ∨ s.sampleCompare? = none) (c : CompareTemplate)
        (hc : s.sampleCompare? = some c) :
        ∃ c', s'.sampleCompare? = some c' ∧ c'.coordinate = c.coordinate := by
      rw [hc] at h
      exact Option.map_eq_some_iff.mp (h.resolve_right nofun).symm
    cases b <;> cases b' <;> first
      | exact absurd h (by decide)
      | cases t <;> first
        | contradiction
        | exact ⟨_, rfl, by cases hs; exact ⟨rfl, by decide, by decide, hcompare (by decide)⟩⟩
  all_goals cases b <;> cases b' <;> first | exact absurd h (by decide) | decide

/-! ## Names without prefixes -/

/-- A name without the reserved prefix of a dialect, if it starts with that. -/
def Dialect.bareName (d : Dialect) (name : String) : String :=
  if d.reservedPrefix.toList <+: name.toList then
    .ofList (name.toList.drop d.reservedPrefix.toList.length)
  else name

theorem Dialect.bareName_append (d : Dialect) (rest : String) :
    d.bareName (d.reservedPrefix ++ rest) = rest := by
  simp [bareName]

theorem Dialect.bareName_of_not {d : Dialect} {name : String}
    (h : ∀ rest, name ≠ d.reservedPrefix ++ rest) : d.bareName name = name := by
  refine if_neg ?_
  rintro ⟨rest, hrest⟩
  refine h (.ofList rest) (String.toList_injective ?_)
  simp [hrest]

def UniformDeclaration.bare (d : Dialect) (u : UniformDeclaration) : UniformDeclaration :=
  { u with name := d.bareName u.name }

def SamplerDeclaration.bare (d : Dialect) (s : SamplerDeclaration) : SamplerDeclaration :=
  { s with name := d.bareName s.name }

/-- Programs with the same tables, in which names count without the reserved prefix of the target. -/
structure Artifact.BindsAlike (a b : Artifact) : Prop where
  interpolatorCount : b.interpolatorCount = a.interpolatorCount
  renderState : b.renderState = a.renderState
  requirements : b.requirements = a.requirements
  uniforms : b.uniforms.map (·.bare b.backend.dialect) = a.uniforms.map (·.bare a.backend.dialect)
  samplers : b.samplers.map (·.bare b.backend.dialect) = a.samplers.map (·.bare a.backend.dialect)

theorem Artifact.BindsAlike.symm {a b : Artifact} (h : a.BindsAlike b) : b.BindsAlike a where
  interpolatorCount := h.interpolatorCount.symm
  renderState := h.renderState.symm
  requirements := h.requirements.symm
  uniforms := h.uniforms.symm
  samplers := h.samplers.symm

namespace Lock

variable {L : Lock} {running : List NodeId} {s t : EmitState}

theorem Name.bareName {a b : String} (h : L.Name a b) :
    L.right.dialect.bareName b = L.left.dialect.bareName a := by
  obtain ⟨rfl, hprefix | ⟨hleft, hright⟩⟩ | ⟨rest, rfl, rfl⟩ := h
  · rw [Dialect.bareName, hprefix, ← Dialect.bareName]
  · rw [Dialect.bareName_of_not hleft, Dialect.bareName_of_not hright]
  · rw [Dialect.bareName_append, Dialect.bareName_append]

theorem Related.bindsAlike (h : L.Related running s t) :
    (s.artifact L.left.settings).BindsAlike (t.artifact L.right.settings) where
  interpolatorCount := congrArg UInt32.ofNat h.interpolators
  renderState := by rw [EmitState.artifact, EmitState.artifact, h.renderState]
  requirements := h.requirements
  uniforms := map_eq_of_related (values_related h.uniforms) fun u v huv ↦ by
    rw [huv.rest, UniformDeclaration.bare, UniformDeclaration.bare]
    exact congrArg (fun name ↦ { u with name }) huv.name.bareName
  samplers := map_eq_of_related (values_related h.samplers) fun u v huv ↦ by
    rw [huv.rest, SamplerDeclaration.bare, SamplerDeclaration.bare]
    exact congrArg (fun name ↦ { u with name }) huv.name.bareName

end Lock

/-! ## Compilations -/

/-- Settings with another target. -/
def Settings.retarget (settings : Settings) (b : Backend) : Settings :=
  { settings with backend := b }

/-- Pins that the author of a graph gives to a subroutine. -/
def NodeKind.scriptPins : NodeKind → List ScriptPin
  | .script _ _ inputs outputs => inputs ++ outputs
  | _ => []

/-- Parameters whose names do not look like those that a compiler makes up. -/
def Graph.HasPlainParameters (g : Graph) : Prop :=
  ∀ n ∈ g.nodes.values, ∀ name ∈ n.kind.parameterNames,
    ¬ "_gl_".toList <+: name.toList ∧ ¬ "_dx_".toList <+: name.toList

/-- Subroutines whose pins are not taken for several ones. -/
def Graph.HasPlainPins (g : Graph) : Prop :=
  ∀ n ∈ g.nodes.values, ∀ pin ∈ n.kind.scriptPins, pin.IsPlain

instance (pin : ScriptPin) : Decidable pin.IsPlain :=
  inferInstanceAs (Decidable (',' ∉ pin.name.toList))

instance (g : Graph) : Decidable g.HasPlainParameters :=
  List.decidableBAll (fun n : Node ↦ ∀ name ∈ n.kind.parameterNames,
    ¬ "_gl_".toList <+: name.toList ∧ ¬ "_dx_".toList <+: name.toList) g.nodes.values

instance (g : Graph) : Decidable g.HasPlainPins :=
  List.decidableBAll (fun n : Node ↦ ∀ pin ∈ n.kind.scriptPins, pin.IsPlain) g.nodes.values

section Targets

variable {g : Graph} {settings : Settings} {b b' : Backend}

/-- Compilations of one graph for two targets. -/
def Lock.retargeting (settings : Settings) (g : Graph) (h : b = .glslEs ∨ b' ≠ .glslEs) : Lock where
  left := ⟨g, settings.retarget b⟩
  right := ⟨g, settings.retarget b'⟩
  matching := ⟨Eq, Eq, False⟩
  exact := False
  agree := Eq
  tracked := False
  graphs := .refl _ _
  backend := nofun
  unrolls := nofun
  blocks := CodeBuffer.keepsBlocks_eq
  supports := Backend.supportedBy h
  exact_of_strict := nofun

theorem Lock.retargeting_admits (hparameters : g.HasPlainParameters) (hpins : g.HasPlainPins)
    (h : b = .glslEs ∨ b' ≠ .glslEs) {n : Node} (hn : n ∈ g.nodes.values) :
    (Lock.retargeting settings g h).Admits n where
  parameters name hname := by
    have hplain (b : Backend) (rest : String) : name ≠ b.dialect.reservedPrefix ++ rest := by
      rintro rfl
      obtain ⟨hgl, hdx⟩ := hparameters n hn _ hname
      cases b
      · exact hgl (by simp [Backend.dialect, Dialect.glsl])
      · exact hgl (by simp [Backend.dialect, Dialect.glslEs])
      · exact hdx (by simp [Backend.dialect, Dialect.hlsl])
    exact .inl ⟨rfl, .inr ⟨hplain b, hplain b'⟩⟩
  pins name body inputs outputs hkind := .inr fun pin hpin ↦
    hpins n hn pin (by rwa [hkind])

/-- A compilation for a target succeeds, if one for a target that expresses less does. -/
theorem compile_retarget (hparameters : g.HasPlainParameters) (hpins : g.HasPlainPins)
    (h : b = .glslEs ∨ b' ≠ .glslEs) {a : Artifact}
    (ha : compile (settings.retarget b) g = .ok a) :
    ∃ a', compile (settings.retarget b') g = .ok a' ∧ a.BindsAlike a' := by
  let L := Lock.retargeting settings g h
  have hadmits (n : Node) (hn : n ∈ g.nodes.values) : L.Admits n :=
    Lock.retargeting_admits hparameters hpins h hn
  let search := g.visit (g.nodes.size + 1)
  have hprepared : L.Prepared search search :=
    { validation := .refl (fun _ ↦ trivial) _
      terminal := .refl (.refl False) _
      vertexOutputs := List.forall₂_same.mpr fun n _ ↦ .refl False n
      admits := hadmits }
  have hdemand (n : Node) (_ : n ∈ g.nodes.values) :
      L.Agree [n.id] EmitM.evaluate EmitM.evaluate :=
    .evaluate (Lock.Lockstep.evaluateWithin (L := L) nofun
      (fun _ n hn ↦ hadmits n (Graph.node?_mem hn)) _)
  obtain ⟨s, hs, rfl⟩ := compile_eq_ok_iff.mp ha
  have hfollows : L.Follows (L.Related []) (emission (settings.retarget b) g)
      (emission (settings.retarget b') g) := hprepared.emissionBy hdemand
  rw [hs] at hfollows
  obtain ⟨t, ht, hst⟩ := hfollows.exists_ok
  exact ⟨_, compile_eq_ok_iff.mpr ⟨t, ht, rfl⟩, hst.bindsAlike⟩

/-- GLSL and HLSL compile the same graphs, among them all that GLSL ES does, and the programs for any
two targets bind alike. -/
theorem compile_targets (settings : Settings) {g : Graph} (hparameters : g.HasPlainParameters)
    (hpins : g.HasPlainPins) :
    ((compile (settings.retarget .glsl) g).isOk ↔ (compile (settings.retarget .hlsl) g).isOk) ∧
      ((compile (settings.retarget .glslEs) g).isOk →
        (compile (settings.retarget .glsl) g).isOk ∧ (compile (settings.retarget .hlsl) g).isOk) ∧
      ∀ b b' a a', compile (settings.retarget b) g = .ok a →
        compile (settings.retarget b') g = .ok a' → a.BindsAlike a' := by
  have hok {b b' : Backend} (h : b = .glslEs ∨ b' ≠ .glslEs)
      (hb : (compile (settings.retarget b) g).isOk) : (compile (settings.retarget b') g).isOk := by
    obtain ⟨a, ha⟩ := exists_ok_of_isOk hb
    obtain ⟨a', ha', -⟩ := compile_retarget hparameters hpins h ha
    rw [ha']
    rfl
  have halike {b b' : Backend} (h : b = .glslEs ∨ b' ≠ .glslEs) {a a' : Artifact}
      (ha : compile (settings.retarget b) g = .ok a)
      (ha' : compile (settings.retarget b') g = .ok a') : a.BindsAlike a' := by
    obtain ⟨a'', hsame, h⟩ := compile_retarget hparameters hpins h ha
    obtain rfl : a'' = a' := Except.ok.inj (hsame.symm.trans ha')
    exact h
  refine ⟨⟨hok (by decide), hok (by decide)⟩, fun h ↦ ⟨hok (by decide) h, hok (by decide) h⟩,
    fun b b' a a' ha ha' ↦ ?_⟩
  by_cases h : b = .glslEs ∨ b' ≠ .glslEs
  · exact halike h ha ha'
  · exact (halike (.inr fun hb ↦ h (.inl hb)) ha' ha).symm

/-- A subroutine that is called with a sampled color and the size of the texture. -/
def scriptedSampler : Graph :=
  .numbered
    [.pixelOutput {}, .script "shade" "o = c / s;" [⟨"c", .vec4⟩, ⟨"s", .vec4⟩] [⟨"o", .vec4⟩],
      .sampler {}, .uniform "image" .texture2D, .textureSize, .interpolator,
      .vertexInput "uv" .custom .vec2 0, .vertexOutput]
    [⟨1, "o", 0, "Input"⟩, ⟨2, "Output", 1, "c"⟩, ⟨4, "Output", 1, "s"⟩, ⟨3, "Output", 2, "Texture"⟩,
      ⟨5, "Output", 2, "TexCoord"⟩, ⟨3, "Output", 4, "Input"⟩, ⟨6, "Output", 5, "Input"⟩,
      ⟨6, "Output", 7, "Input"⟩]

theorem compile_targets_scriptedSampler :
    scriptedSampler.HasPlainParameters ∧ scriptedSampler.HasPlainPins ∧
      ∃ a a', compile {} scriptedSampler = .ok a ∧
        compile (Settings.retarget {} .hlsl) scriptedSampler = .ok a' ∧ a.BindsAlike a' := by
  have hparameters : scriptedSampler.HasPlainParameters := by decide +kernel
  have hpins : scriptedSampler.HasPlainPins := by decide +kernel
  have hok : (compile (Settings.retarget {} .glsl) scriptedSampler).isOk := by decide +kernel
  obtain ⟨hiff, -, halike⟩ := compile_targets {} hparameters hpins
  obtain ⟨a, ha⟩ := exists_ok_of_isOk hok
  obtain ⟨a', ha'⟩ := exists_ok_of_isOk (hiff.mp hok)
  exact ⟨hparameters, hpins, a, a', ha, ha', halike _ _ _ _ ha ha'⟩

/-- Two subroutines of one name, of which one has two pins and the other has one that reads like two in
GLSL. -/
def commaInPin : Graph :=
  .numbered
    [.pixelOutput {}, .script "f" "o = b * a;" [⟨"a", .scalar⟩, ⟨"b", .vec4⟩] [⟨"o", .vec4⟩],
      .script "f" "o = b * a;" [⟨"a, vec4 b", .scalar⟩] [⟨"o", .vec4⟩], .uniform "A" .scalar,
      .uniform "B" .vec4, .arithmetic .add]
    [⟨5, "Output", 0, "Input"⟩, ⟨1, "o", 5, "Input1"⟩, ⟨2, "o", 5, "Input2"⟩, ⟨3, "Output", 1, "a"⟩,
      ⟨4, "Output", 1, "b"⟩, ⟨3, "Output", 2, "a, vec4 b"⟩]

/-- A comma in the name of a pin makes a difference between the targets. -/
theorem isOk_compile_commaInPin :
    commaInPin.HasPlainParameters ∧ (compile (Settings.retarget {} .glsl) commaInPin).isOk ∧
      (compile (Settings.retarget {} .hlsl) commaInPin).isOk = false := by
  decide +kernel

end Targets

end ShaderGraph
