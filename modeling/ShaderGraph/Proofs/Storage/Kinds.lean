import ShaderGraph.Proofs.Storage.Stored
import ShaderGraph.Proofs.Text.Hex
import ShaderGraph.Storage.Graph

/-!
# Stored kinds of nodes are restored

Labels, fixed-function states, literals and kinds with their configuration, as far as the floats in
them are finite.
-/

namespace ShaderGraph

/-! ## Labels -/

instance : LawfulLabelled ValueType :=
  .ofAll (by intro a; cases a <;> decide +kernel) (by decide +kernel) (by decide +kernel)

instance : LawfulLabelled Comparison :=
  .ofAll (by intro a; cases a <;> decide +kernel) (by decide +kernel) (by decide +kernel)

instance : LawfulLabelled BranchHint :=
  .ofAll (by intro a; cases a <;> decide +kernel) (by decide +kernel) (by decide +kernel)

instance : LawfulLabelled DerivativeAxis :=
  .ofAll (by intro a; cases a <;> decide +kernel) (by decide +kernel) (by decide +kernel)

instance : LawfulLabelled LogBase :=
  .ofAll (by intro a; cases a <;> decide +kernel) (by decide +kernel) (by decide +kernel)

instance : LawfulLabelled AttributeUsage :=
  .ofAll (by intro a; cases a <;> decide +kernel) (by decide +kernel) (by decide +kernel)

instance : LawfulLabelled CullMode :=
  .ofAll (by intro a; cases a <;> decide +kernel) (by decide +kernel) (by decide +kernel)

instance : LawfulLabelled BlendOperation :=
  .ofAll (by intro a; cases a <;> decide +kernel) (by decide +kernel) (by decide +kernel)

instance : LawfulLabelled BlendFactor :=
  .ofAll (by intro a; cases a <;> decide +kernel) (by decide +kernel) (by decide +kernel)

instance : LawfulLabelled CompareFunction :=
  .ofAll (by intro a; cases a <;> decide +kernel) (by decide +kernel) (by decide +kernel)

instance : LawfulLabelled StencilOperation :=
  .ofAll (by intro a; cases a <;> decide +kernel) (by decide +kernel) (by decide +kernel)

instance : LawfulLabelled Filter :=
  .ofAll (by intro a; cases a <;> decide +kernel) (by decide +kernel) (by decide +kernel)

instance : LawfulLabelled Address :=
  .ofAll (by intro a; cases a <;> decide +kernel) (by decide +kernel) (by decide +kernel)

instance : LawfulLabelled PinDirection :=
  .ofAll (by intro a; cases a <;> decide +kernel) (by decide +kernel) (by decide +kernel)

/-! ## States and literals -/

variable {limits : Limits}

theorem ColorWriteMask.restores (mask : ColorWriteMask) : Restores limits mask :=
  .wrapper (by decide +kernel) rfl (.byte _)

theorem RenderState.restores (s : RenderState) : Restores limits s := by
  have hfields := RecordFields.Restores.build limits s RenderState.mk
    |>.field "cull_mode" cullMode (.labelled _)
    |>.field "blend_enable" blendEnable (.bool _)
    |>.field "blend_operation" blendOperation (.labelled _)
    |>.field "blend_source" blendSource (.labelled _)
    |>.field "blend_destination" blendDestination (.labelled _)
    |>.field "color_write_mask" colorWriteMask (ColorWriteMask.restores _)
    |>.field "depth_enable" depthEnable (.bool _)
    |>.field "depth_write_enable" depthWriteEnable (.bool _)
    |>.field "depth_function" depthFunction (.labelled _)
    |>.field "alpha_test_enable" alphaTestEnable (.bool _)
    |>.field "alpha_test_function" alphaTestFunction (.labelled _)
    |>.field "alpha_test_reference" alphaTestReference (.byte _)
    |>.field "stencil_enable" stencilEnable (.bool _)
    |>.field "stencil_fail" stencilFail (.labelled _)
    |>.field "stencil_z_fail" stencilZFail (.labelled _)
    |>.field "stencil_pass" stencilPass (.labelled _)
    |>.field "stencil_function" stencilFunction (.labelled _)
    |>.field "stencil_reference" stencilReference (.word _)
    |>.field "stencil_mask" stencilMask (.word _)
  exact .record (by decide +kernel) (by decide +kernel) hfields

theorem SamplerState.restores {s : SamplerState} (hbias : limits.float s.mipBias) :
    Restores limits s := by
  have hfields := RecordFields.Restores.build limits s SamplerState.mk
    |>.field "min_filter" minFilter (.labelled _)
    |>.field "mip_filter" mipFilter (.labelled _)
    |>.field "mag_filter" magFilter (.labelled _)
    |>.field "address_u" addressU (.labelled _)
    |>.field "address_v" addressV (.labelled _)
    |>.field "address_w" addressW (.labelled _)
    |>.field "compare" compare (.labelled _)
    |>.field "mip_bias" mipBias (.float hbias)
    |>.field "ignore_mips" ignoreMips (.bool _)
  exact .record (by decide +kernel) (by decide +kernel) hfields

/-- Finite floats side by side. -/
theorem Restores.floats {n : Nat} {xs : Vector Binary32 n}
    (hxs : ∀ x ∈ xs.toList, x.isFinite = true) : Restores .document xs :=
  .vector fun x hx ↦ .float (hxs x hx)

theorem Literal.restores {l : Literal} (hl : ∀ x ∈ l.components, x.isFinite = true) :
    Restores .document l := by
  have hnames : Schema.AreNames (cases.map Case.name) := by decide +kernel
  suffices (Stored.schema Literal).Admits .document (store l) ∧ restore? (store l) = some l from
    ⟨this.1, this.2⟩
  cases l with
  | scalar x =>
    exact Case.restores hnames (by simp only [cases, List.mem_cons, true_or]) (by decide +kernel)
      (.single "Scalar" scalar rfl (.float (hl x List.mem_cons_self)))
  | vector2 x y =>
    have hxs : Restores .document (pair x y) := .floats hl
    exact Case.restores hnames (by simp only [cases, List.mem_cons, true_or, or_true]) (by decide +kernel)
      (.single "Vector2" (onPair vector2) rfl hxs)
  | vector3 x y z =>
    have hxs : Restores .document (triple x y z) := .floats hl
    exact Case.restores hnames (by simp only [cases, List.mem_cons, true_or, or_true]) (by decide +kernel)
      (.single "Vector3" (onTriple vector3) rfl hxs)
  | vector4 x y z w =>
    have hxs : Restores .document (quadruple x y z w) := .floats hl
    exact Case.restores hnames (by simp only [cases, List.mem_cons, true_or, or_true]) (by decide +kernel)
      (.single "Vector4" (onQuadruple vector4) rfl hxs)

/-! ## Kinds -/

theorem ScriptPin.restores (p : ScriptPin) : Restores .document p := by
  have hfields := RecordFields.Restores.build .document p ScriptPin.mk
    |>.field "name" name (.text trivial)
    |>.field "ty" type (.labelled _)
  exact .record (by decide +kernel) (by decide +kernel) hfields

namespace NodeKind

/-- The floats of the configuration. -/
def floats : NodeKind → List Binary32
  | clamp low high => [low, high]
  | color r g b a => [r, g, b, a]
  | sampler state => [state.mipBias]
  | scalar value => [value]
  | vector x y z w => [x, y, z, w]
  | _ => []

/-- A kind is stored by one of the cases. -/
structure StoredBy (k : NodeKind) (c : Case NodeKind) : Prop where
  mem : c ∈ cases
  name : c.name = k.caseName
  restores : c.Restores .document k.payload k

theorem storedBy_plainCase {k : NodeKind} (hmem : plainCase k ∈ cases)
    (hname : k.caseName = k.typeName) (hpayload : k.payload = .unit) :
    k.StoredBy (plainCase k) :=
  ⟨hmem, hname.symm, hpayload ▸ .constant _ _⟩

theorem storedBy_ofFields {k : NodeKind} {σ : Type} {r : RecordFields σ NodeKind} {s : σ}
    (name : String) (hmem : Case.ofFields name r ∈ cases) (hname : k.caseName = name)
    (hpayload : k.payload = Case.fieldsPayload r s)
    (hnames : Schema.AreNames (r.fields.map Prod.fst)) (h : r.Restores .document s k) :
    k.StoredBy (.ofFields name r) :=
  ⟨hmem, hname.symm, hpayload ▸ .ofFields _ hnames h⟩

theorem exists_storedBy {k : NodeKind} (hk : ∀ x ∈ k.floats, x.isFinite = true) :
    ∃ c, k.StoredBy c := by
  cases k with
  | clamp low high =>
    have hlow : low.isFinite = true := hk low (by simp [floats])
    have hhigh : high.isFinite = true := hk high (by simp [floats])
    have hfields := RecordFields.Restores.build .document (low, high) clamp
      |>.field "min" Prod.fst (.float hlow)
      |>.field "max" Prod.snd (.float hhigh)
    exact ⟨_, storedBy_ofFields "Clamp" (by simp only [cases, List.mem_cons, true_or, or_true])
      rfl rfl (by decide +kernel) hfields⟩
  | color r g b a =>
    have hcolor : Restores .document (quadruple r g b a) := .floats hk
    have hfields := RecordFields.Restores.build .document (quadruple r g b a) (onQuadruple color)
      |>.field "rgba" id hcolor
    exact ⟨_, storedBy_ofFields "Color" (by simp only [cases, List.mem_cons, true_or, or_true])
      rfl rfl (by decide +kernel) hfields⟩
  | conditional comparison hint =>
    have hfields := RecordFields.Restores.build .document (comparison, hint) conditional
      |>.field "operator" Prod.fst (.labelled _)
      |>.field "branch" Prod.snd (.labelled _)
    exact ⟨_, storedBy_ofFields "Conditional" (by simp only [cases, List.mem_cons, true_or, or_true])
      rfl rfl (by decide +kernel) hfields⟩
  | derivative axis =>
    have hfields := RecordFields.Restores.build .document axis derivative
      |>.field "axis" id (.labelled _)
    exact ⟨_, storedBy_ofFields "Derivative" (by simp only [cases, List.mem_cons, true_or, or_true])
      rfl rfl (by decide +kernel) hfields⟩
  | discard comparison =>
    have hfields := RecordFields.Restores.build .document comparison discard
      |>.field "operator" id (.labelled _)
    exact ⟨_, storedBy_ofFields "Discard" (by simp only [cases, List.mem_cons, true_or, or_true])
      rfl rfl (by decide +kernel) hfields⟩
  | indexedUniform parameter type count =>
    have hfields := RecordFields.Restores.build .document (parameter, type, count) indexedUniform
      |>.field "parameter" Prod.fst (.text trivial)
      |>.field "ty" (·.2.1) (.labelled _)
      |>.field "length" (·.2.2) (.word _)
    exact ⟨_, storedBy_ofFields "IndexedUniform" (by simp only [cases, List.mem_cons, true_or, or_true])
      rfl rfl (by decide +kernel) hfields⟩
  | iterate first last =>
    have hfields := RecordFields.Restores.build .document (first, last) iterate
      |>.field "from" Prod.fst (.integer _)
      |>.field "to" Prod.snd (.integer _)
    exact ⟨_, storedBy_ofFields "Iterate" (by simp only [cases, List.mem_cons, true_or, or_true])
      rfl rfl (by decide +kernel) hfields⟩
  | iterate2d firstX lastX firstY lastY =>
    have hfields := RecordFields.Restores.build .document (firstX, lastX, firstY, lastY) iterate2d
      |>.field "from_x" Prod.fst (.integer _)
      |>.field "to_x" (·.2.1) (.integer _)
      |>.field "from_y" (·.2.2.1) (.integer _)
      |>.field "to_y" (·.2.2.2) (.integer _)
    exact ⟨_, storedBy_ofFields "Iterate2d" (by simp only [cases, List.mem_cons, true_or, or_true])
      rfl rfl (by decide +kernel) hfields⟩
  | log base =>
    have hfields := RecordFields.Restores.build .document base log
      |>.field "base" id (.labelled _)
    exact ⟨_, storedBy_ofFields "Log" (by simp only [cases, List.mem_cons, true_or, or_true])
      rfl rfl (by decide +kernel) hfields⟩
  | pixelOutput state =>
    have hfields := RecordFields.Restores.build .document state pixelOutput
      |>.field "state" id (RenderState.restores _)
    exact ⟨_, storedBy_ofFields "PixelOutput" (by simp only [cases, List.mem_cons, true_or, or_true])
      rfl rfl (by decide +kernel) hfields⟩
  | sampler state =>
    have hbias : state.mipBias.isFinite = true := hk _ (by simp [floats])
    have hfields := RecordFields.Restores.build .document state sampler
      |>.field "state" id (SamplerState.restores hbias)
    exact ⟨_, storedBy_ofFields "Sampler" (by simp only [cases, List.mem_cons, true_or, or_true])
      rfl rfl (by decide +kernel) hfields⟩
  | scalar value =>
    have hvalue : value.isFinite = true := hk value (by simp [floats])
    have hfields := RecordFields.Restores.build .document value scalar
      |>.field "value" id (.float hvalue)
    exact ⟨_, storedBy_ofFields "Scalar" (by simp only [cases, List.mem_cons, true_or, or_true])
      rfl rfl (by decide +kernel) hfields⟩
  | script name body inputs outputs =>
    have hpins (ps : List ScriptPin) : Restores .document ps := .list trivial fun p _ ↦ p.restores
    have hfields := RecordFields.Restores.build .document (name, body, inputs, outputs) script
      |>.field "name" Prod.fst (.text trivial)
      |>.field "body" (·.2.1) (.text trivial)
      |>.field "inputs" (·.2.2.1) (hpins _)
      |>.field "outputs" (·.2.2.2) (hpins _)
    exact ⟨_, storedBy_ofFields "Script" (by simp only [cases, List.mem_cons, true_or, or_true])
      rfl rfl (by decide +kernel) hfields⟩
  | sum first last =>
    have hfields := RecordFields.Restores.build .document (first, last) sum
      |>.field "from" Prod.fst (.integer _)
      |>.field "to" Prod.snd (.integer _)
    exact ⟨_, storedBy_ofFields "Sum" (by simp only [cases, List.mem_cons, true_or, or_true])
      rfl rfl (by decide +kernel) hfields⟩
  | swizzle pattern =>
    have hfields := RecordFields.Restores.build .document pattern swizzle
      |>.field "pattern" id (.text trivial)
    exact ⟨_, storedBy_ofFields "Swizzle" (by simp only [cases, List.mem_cons, true_or, or_true])
      rfl rfl (by decide +kernel) hfields⟩
  | switch labels hint =>
    have hlabels : Restores .document labels := .list trivial fun label _ ↦ .integer label
    have hfields := RecordFields.Restores.build .document (labels, hint) switch
      |>.field "cases" Prod.fst hlabels
      |>.field "branch" Prod.snd (.labelled _)
    exact ⟨_, storedBy_ofFields "Switch" (by simp only [cases, List.mem_cons, true_or, or_true])
      rfl rfl (by decide +kernel) hfields⟩
  | uniform parameter type =>
    have hfields := RecordFields.Restores.build .document (parameter, type) uniform
      |>.field "parameter" Prod.fst (.text trivial)
      |>.field "ty" Prod.snd (.labelled _)
    exact ⟨_, storedBy_ofFields "Uniform" (by simp only [cases, List.mem_cons, true_or, or_true])
      rfl rfl (by decide +kernel) hfields⟩
  | vector x y z w =>
    have hvector : Restores .document (quadruple x y z w) := .floats hk
    have hfields := RecordFields.Restores.build .document (quadruple x y z w) (onQuadruple vector)
      |>.field "value" id hvector
    exact ⟨_, storedBy_ofFields "Vector" (by simp only [cases, List.mem_cons, true_or, or_true])
      rfl rfl (by decide +kernel) hfields⟩
  | vertexInput name usage type index =>
    have hfields := RecordFields.Restores.build .document (name, usage, type, index) vertexInput
      |>.field "name" Prod.fst (.text trivial)
      |>.field "usage" (·.2.1) (.labelled _)
      |>.field "ty" (·.2.2.1) (.labelled _)
      |>.field "index" (·.2.2.2) (.word _)
    exact ⟨_, storedBy_ofFields "VertexInput" (by simp only [cases, List.mem_cons, true_or, or_true])
      rfl rfl (by decide +kernel) hfields⟩
  | external name =>
    have hfields := RecordFields.Restores.build .document name external
      |>.field "type_name" id (.text trivial)
    exact ⟨_, storedBy_ofFields "External" (by simp only [cases, List.mem_cons, true_or, or_true])
      rfl rfl (by decide +kernel) hfields⟩
  | intrinsic f =>
    exact ⟨_, storedBy_plainCase (by cases f <;> simp only [cases, List.mem_cons, true_or, or_true])
      rfl rfl⟩
  | angle f =>
    exact ⟨_, storedBy_plainCase (by cases f <;> simp only [cases, List.mem_cons, true_or, or_true])
      rfl rfl⟩
  | arithmetic op =>
    exact ⟨_, storedBy_plainCase (by cases op <;> simp only [cases, List.mem_cons, true_or, or_true])
      rfl rfl⟩
  | vectorFunction f =>
    exact ⟨_, storedBy_plainCase (by cases f <;> simp only [cases, List.mem_cons, true_or, or_true])
      rfl rfl⟩
  | _ => exact ⟨_, storedBy_plainCase (by simp only [cases, List.mem_cons, true_or, or_true]) rfl rfl⟩

theorem restores {k : NodeKind} (hk : ∀ x ∈ k.floats, x.isFinite = true) :
    Restores .document k := by
  obtain ⟨c, hmem, hname, hrestores⟩ := exists_storedBy hk
  have hnames : Schema.AreNames (cases.map Case.name) := by decide +kernel
  obtain ⟨hadmits, hrestore⟩ := Case.restores hnames hmem (by decide +kernel) hrestores
  rw [hname] at hadmits hrestore
  exact ⟨hadmits, hrestore⟩

end NodeKind

end ShaderGraph
