import ShaderGraph.Proofs.Emission.Declarations
import ShaderGraph.Proofs.Graph.Editing
import ShaderGraph.Proofs.Numeric.Literal
import ShaderGraph.Proofs.Trace.Events

/-!
# Constants in programs

The floats of constant nodes and of the defaults of inputs are written as literals from which they are
read back. A constant that selects an element of an array is checked against the length of the array
and folded to an integer.
-/

namespace ShaderGraph

open EmitM Emitter

variable {env : EmitEnv} {demand : Demand} {n : Node} {s : EmitState}

/-! ## Literals -/

/-- The components of the constant that a node is. -/
def NodeKind.constants? : NodeKind → Option (List Binary32)
  | .scalar x => some [x]
  | .vector x y z w => some [x, y, z, w]
  | .color r g b a => some [r, g, b, a]
  | _ => none

theorem ValueType.length_of_ofComponents? {cs : List Binary32} {t : ValueType}
    (h : ofComponents? cs.length = some t) : cs ≠ [] ∧ cs.length ≤ 4 := by
  unfold ofComponents? at h
  split at h <;> simp_all [← List.length_pos_iff]

theorem Literal.ofComponents?_components (l : Literal) :
    ValueType.ofComponents? l.components.length = some l.type := by
  cases l <;> rfl

theorem Dialect.isSome_typeName? (d : Dialect) {t : ValueType} (h : t ≠ .void) :
    ∃ name, d.typeName? t = some name := by
  cases t <;> first | exact ⟨_, rfl⟩ | exact absurd rfl h

theorem Emitter.returns_constant {cs : List Binary32} {t : ValueType} {p : Pin} {name : String}
    (ht : ValueType.ofComponents? cs.length = some t) (hp : n.output? "Output" = some p)
    (hname : env.dialect.typeName? t = some name) :
    Returns env (constant n cs) s () ((s.allocate p.id t).write
      s!"const {name} {temporary s.nextVariable} = {env.dialect.vectorLiteral cs};") := by
  simp only [constant, returns_bind, returns_dialect, returns_emitOutput, returns_typeName,
    returns_writeLine]
  exact ⟨_, _, ⟨rfl, rfl⟩, _, _, ⟨p, hp, rfl, by rw [ht]; rfl⟩, name, _, ⟨by rwa [ht], rfl⟩, rfl⟩

/-- A constant node declares a constant of a scalar or vector type. -/
theorem Emitter.emitKind_of_constants? (demand : Demand) {cs : List Binary32} (h : n.kind.constants? = some cs) :
    emitKind demand n = constant n cs ∧
      ∃ t, ValueType.ofComponents? cs.length = some t ∧ t ≠ .void := by
  unfold emitKind
  cases hkind : n.kind <;> rw [hkind] at h <;> cases h
  all_goals exact ⟨rfl, _, rfl, by decide⟩

theorem returns_inputValue?_default {pin : String} {p : Pin} {l : Literal}
    (hp : n.input? pin = some p) (hdriver : env.graph.driver? p.id = none)
    (hl : p.default? = some l) :
    Returns env (inputValue? demand n pin) s
      (some ⟨env.dialect.vectorLiteral l.components, l.type⟩) s := by
  simp only [inputValue?, hp, returns_bind, returns_read]
  refine ⟨env, s, ⟨rfl, rfl⟩, ?_⟩
  simp only [hdriver, hl, returns_bind, returns_dialect, returns_pure]
  exact ⟨_, s, ⟨rfl, rfl⟩, rfl, rfl⟩

/-- The literal of every finite float is a decimal that has the sign of the float and rounds to it, and
floats with different bits have different literals. The components of a constant node are read off the
line that its emitter writes, and those of a default off the value of the input. -/
theorem literals_keep_values :
    (∀ x : Binary32, x.isFinite → x.IsDenotedBy x.literal) ∧
    (∀ x y : Binary32, x.isFinite → y.isFinite → x.literal = y.literal → x = y) ∧
    (∀ (env : EmitEnv) (demand : Demand) (n : Node) (cs : List Binary32) (p : Pin) (s : EmitState),
      n.kind.constants? = some cs → (∀ c ∈ cs, c.isFinite) → n.output? "Output" = some p →
      ∃ t name literal, env.dialect.typeName? t = some name ∧ literalComponents? literal = some cs ∧
        Returns env (emitKind demand n) s ()
          ((s.allocate p.id t).write s!"const {name} {temporary s.nextVariable} = {literal};")) ∧
    (∀ (env : EmitEnv) (demand : Demand) (n : Node) (pin : String) (p : Pin) (l : Literal)
      (s : EmitState), n.input? pin = some p → env.graph.driver? p.id = none → p.default? = some l →
      (∀ c ∈ l.components, c.isFinite) →
      ∃ literal, literalComponents? literal = some l.components ∧
        Returns env (inputValue? demand n pin) s (some ⟨literal, l.type⟩) s) := by
  refine ⟨fun x ↦ Binary32.isDenotedBy_literal, fun x y ↦ Binary32.literal_injective, ?_, ?_⟩
  · intro env demand n cs p s hkind hfinite hp
    obtain ⟨hemit, t, ht, hvoid⟩ := emitKind_of_constants? demand hkind
    obtain ⟨name, hname⟩ := env.dialect.isSome_typeName? hvoid
    refine ⟨t, name, env.dialect.vectorLiteral cs, hname, ?_, ?_⟩
    · obtain ⟨hne, hlength⟩ := ValueType.length_of_ofComponents? ht
      exact literalComponents?_vectorLiteral env.settings.backend hne hlength hfinite
    · rw [hemit]
      exact returns_constant ht hp hname
  · intro env demand n pin p l s hp hdriver hl hfinite
    refine ⟨env.dialect.vectorLiteral l.components, ?_, ?_⟩
    · obtain ⟨hne, hlength⟩ := ValueType.length_of_ofComponents? l.ofComponents?_components
      exact literalComponents?_vectorLiteral env.settings.backend hne hlength hfinite
    · exact returns_inputValue?_default hp hdriver hl

/-- A color with the largest float that has a place after the point and the one next to it. -/
def edgeColor : Node :=
  .ofKind (Graph.nodeNumber 0) (Graph.pinNumber 0) (.color ⟨0x4affffff⟩ ⟨0x4b000000⟩ ⟨0xbf000000⟩ .one)

/-- A zero with a sign, the smallest and the largest float, and a color on the edge of whole numbers. -/
theorem literals_keep_values_extremes :
    (Binary32.mk 0x80000000).IsDenotedBy "-0.0" ∧
      (Binary32.mk 1).IsDenotedBy "0.000000000000000000000000000000000000000000001" ∧
      (Binary32.mk 0x7f7fffff).IsDenotedBy "340282350000000000000000000000000000000.0" ∧
      (Binary32.mk 0).literal ≠ (Binary32.mk 0x80000000).literal ∧
      ∃ literal t, literalComponents? literal =
          some [⟨0x4affffff⟩, ⟨0x4b000000⟩, ⟨0xbf000000⟩, .one] ∧
        Returns ⟨.untitled, {}⟩ (emitKind evaluate edgeColor) {} () t := by
  obtain ⟨hdenoted, hinjective, hconstant, -⟩ := literals_keep_values
  refine ⟨?_, ?_, ?_, fun h ↦ ?_, ?_⟩
  · rw [← show (Binary32.mk 0x80000000).literal = "-0.0" by decide +kernel]
    exact hdenoted _ rfl
  · rw [← show (Binary32.mk 1).literal = "0.000000000000000000000000000000000000000000001" by
      decide +kernel]
    exact hdenoted _ rfl
  · rw [← show (Binary32.mk 0x7f7fffff).literal = "340282350000000000000000000000000000000.0" by
      decide +kernel]
    exact hdenoted _ rfl
  · exact absurd (hinjective _ _ rfl rfl h) (by decide)
  · obtain ⟨_, _, literal, -, hread, hreturns⟩ :=
      hconstant ⟨.untitled, {}⟩ evaluate edgeColor _ _ {} rfl (by decide) rfl
    exact ⟨literal, _, hread, hreturns⟩

/-! ## Subscripts -/

/-- The `Index` input of the node is driven by a scalar node. -/
structure Graph.IndexedBy (g : Graph) (n : Node) (index : Binary32) : Prop where
  driven : ∃ p c source, n.input? "Index" = some p ∧ g.driver? p.id = some c ∧
    g.node? c.fromNode = some source ∧ source.kind = .scalar index

theorem Graph.IndexedBy.constantIndex? {g : Graph} {index : Binary32} (h : g.IndexedBy n index) :
    constantIndex? g n = some index := by
  obtain ⟨p, c, source, hp, hc, hsource, hkind⟩ := h
  simp [Emitter.constantIndex?, hp, hc, hsource, hkind]

theorem Emitter.emitKind_of_indexedUniform {parameter : String} {t : ValueType} {length : UInt32}
    (hkind : n.kind = .indexedUniform parameter t length) :
    emitKind demand n = indexedUniform demand n parameter t length := by
  unfold emitKind
  rw [hkind]

variable {parameter : String} {t : ValueType} {length : UInt32} {index : Binary32} {p : Pin}
  {u : EmitState}

/-- The error of a constant that is no subscript. -/
def Emitter.outsideError (n : Node) (parameter : String) (length : UInt32) (index : Binary32) :
    CompileError :=
  let place := s!"index {index.display} is outside '{parameter}[{length}]'"
  .invalidGraph s!"{(NodeIdentity.ofNode n).text}: {place}"

/-- The constant is a number from zero up to, but not including, the length of an array. -/
structure Binary32.IsSubscript (index : Binary32) (length : UInt32) : Prop where
  finite : index.isFinite
  nonneg : 0 ≤ index.value
  lt_length : index.value < length.toNat

theorem Binary32.IsSubscript.floor_lt (h : index.IsSubscript length) :
    ⌊index.value⌋₊ < length.toNat :=
  (Nat.floor_lt h.nonneg).mpr h.lt_length

theorem Binary32.IsSubscript.truncate_eq (h : index.IsSubscript length) :
    index.truncate = ⌊index.value⌋₊ := by
  have hlength : length.toNat < 2 ^ 32 := length.toNat_lt
  have hfloor := h.floor_lt
  rw [Binary32.truncate_eq h.finite h.nonneg]
  omega

/-- What is tested is that the constant is a subscript. -/
theorem Binary32.isSubscript_iff :
    (index.isNonNegative && index.truncate < length.toNat) = true ↔ index.IsSubscript length := by
  rw [isNonNegative_and_truncate_lt_iff]
  exact ⟨fun ⟨h, h', h''⟩ ↦ ⟨h, h', h''⟩, fun h ↦ ⟨h.finite, h.nonneg, h.lt_length⟩⟩

theorem Emitter.returns_subscript (hindex : env.graph.IndexedBy n index)
    (h : index.IsSubscript length) :
    Returns env (subscript demand n parameter length) s (toString ⌊index.value⌋₊) s := by
  unfold subscript
  refine returns_bind.mpr ⟨env, s, rfl, ?_⟩
  simp only [hindex.constantIndex?]
  rw [if_pos (Binary32.isSubscript_iff.mpr h), h.truncate_eq]
  rfl

theorem Emitter.ends_subscript (hindex : env.graph.IndexedBy n index)
    (h : ¬ index.IsSubscript length) :
    Ends env (subscript demand n parameter length) s
      (.error (outsideError n parameter length index)) s := by
  unfold subscript
  refine ends_bind_ok (a := env) rfl ?_
  simp only [hindex.constantIndex?]
  rw [if_neg fun hindex ↦ h (Binary32.isSubscript_iff.mp hindex)]
  rfl

/-- The declaration of an array that is nowhere declared differently succeeds. -/
theorem EmitM.exists_returns_declareUniform {length? : Option UInt32}
    (h : ∀ e ∈ s.uniforms.get? parameter, e.type = t ∧ e.length? = length?) :
    ∃ u, Returns env (declareUniform n parameter t length?) s () u := by
  simp only [returns_declareUniform]
  cases hentry : s.uniforms.get? parameter with
  | none => exact ⟨_, _, .inl ⟨rfl, rfl⟩, rfl⟩
  | some e =>
    obtain ⟨htype, hlength⟩ := h e hentry
    exact ⟨_, _, .inr ⟨e, rfl, htype, hlength, rfl⟩, rfl⟩

/-- An element of an array that a constant selects is emitted if and only if the constant is a number
from zero up to, but not including, the length. Its subscript then is the integer part of the constant,
which is below the length. Any other constant is reported, and nothing but the array is declared. -/
theorem emitKind_indexedBy_iff (demand : Demand)
    (hkind : n.kind = .indexedUniform parameter t length) (ht : t.isNumeric) (hlength : length ≠ 0)
    (hp : n.output? "Output" = some p) (hindex : env.graph.IndexedBy n index)
    (hfree : ∀ e ∈ s.uniforms.get? parameter, e.type = t ∧ e.length? = some length) :
    ((∃ u, Returns env (emitKind demand n) s () u) ↔ index.IsSubscript length) ∧
    ∃ u, Returns env (declareUniform n parameter t (some length)) s () u ∧
      (index.IsSubscript length → ⌊index.value⌋₊ < length.toNat ∧
        ∃ name, env.dialect.typeName? t = some name ∧
          Returns env (emitKind demand n) s () ((u.allocate p.id t).write
            s!"{name} {temporary u.nextVariable} = {parameter}[{⌊index.value⌋₊}];")) ∧
      (¬ index.IsSubscript length →
        Ends env (emitKind demand n) s (.error (outsideError n parameter length index)) u) := by
  obtain ⟨u, hdeclare⟩ : ∃ u, Returns env (declareUniform n parameter t (some length)) s () u :=
    exists_returns_declareUniform hfree
  obtain ⟨name, hname⟩ := env.dialect.isSome_typeName? (t := t) (by rintro rfl; cases ht)
  have hemit : emitKind demand n = (do
      declareUniform n parameter t (some length)
      let place ← subscript demand n parameter length
      assignOutput n t s!"{parameter}[{place}]") := by
    rw [emitKind_of_indexedUniform hkind, indexedUniform, ht]
    simp only [Bool.not_true, Bool.false_eq_true, if_false, hlength]
  have hinside (h : index.IsSubscript length) :
      Returns env (emitKind demand n) s () ((u.allocate p.id t).write
        s!"{name} {temporary u.nextVariable} = {parameter}[{⌊index.value⌋₊}];") := by
    rw [hemit]
    refine returns_bind.mpr ⟨(), u, hdeclare, returns_bind.mpr
      ⟨_, u, returns_subscript hindex h, ?_⟩⟩
    simp only [assignOutput, returns_bind, returns_emitOutput, returns_assign]
    refine ⟨_, _, ⟨p, hp, rfl, rfl⟩, name, hname, ?_⟩
    simp [String.append_assoc]
  have houtside (h : ¬ index.IsSubscript length) :
      Ends env (emitKind demand n) s (.error (outsideError n parameter length index)) u := by
    rw [hemit]
    exact ends_bind_ok hdeclare (ends_bind_error (ends_subscript hindex h))
  refine ⟨⟨fun hreturns ↦ ?_, fun h ↦ ⟨_, hinside h⟩⟩, u, hdeclare,
    fun h ↦ ⟨h.floor_lt, name, hname, hinside h⟩, houtside⟩
  obtain ⟨v, hv⟩ := hreturns
  by_contra h
  cases (show _ = _ from hv).symm.trans (houtside h)

/-- An array of four weights, of which a constant selects one. -/
def weightAt (index : Binary32) : Graph :=
  .numbered [.pixelOutput {}, .indexedUniform "weights" .scalar 4, .scalar index]
    [⟨1, "Output", 0, "Input"⟩, ⟨2, "Output", 1, "Index"⟩]

/-- The node that selects a weight. -/
def weightNode : Node :=
  .ofKind (Graph.nodeNumber 1) (Graph.pinNumber 1) (.indexedUniform "weights" .scalar 4)

theorem indexedBy_weightAt (index : Binary32) :
    (EmitEnv.mk (weightAt index) {}).graph.IndexedBy weightNode index :=
  ⟨_, _, _, rfl, rfl, rfl, rfl⟩

/-- Two and a half select the third weight, and four selects none. -/
theorem emitKind_indexedBy_weightAt :
    (∃ u, Returns ⟨weightAt ⟨0x40200000⟩, {}⟩ (emitKind evaluate weightNode) {} () u) ∧
      ∃ u, Ends ⟨weightAt ⟨0x40800000⟩, {}⟩ (emitKind evaluate weightNode) {}
        (.error (outsideError weightNode "weights" 4 ⟨0x40800000⟩)) u := by
  have hinside : Binary32.IsSubscript ⟨0x40200000⟩ 4 :=
    ⟨by decide, by decide +kernel, by decide +kernel⟩
  have houtside : ¬ Binary32.IsSubscript ⟨0x40800000⟩ 4 :=
    fun h ↦ absurd h.lt_length (by decide +kernel)
  have hkind : weightNode.kind = .indexedUniform "weights" .scalar 4 := rfl
  obtain ⟨hiff, -⟩ := emitKind_indexedBy_iff (s := {}) evaluate hkind rfl (by decide) rfl
    (indexedBy_weightAt ⟨0x40200000⟩) (by rintro _ ⟨⟩)
  obtain ⟨-, u, -, -, hends⟩ := emitKind_indexedBy_iff (s := {}) evaluate hkind rfl (by decide) rfl
    (indexedBy_weightAt ⟨0x40800000⟩) (by rintro _ ⟨⟩)
  exact ⟨hiff.mpr hinside, u, hends houtside⟩

end ShaderGraph
