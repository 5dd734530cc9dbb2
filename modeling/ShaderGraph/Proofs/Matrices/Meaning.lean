import ShaderGraph.Emission.Algebra
import ShaderGraph.Emission.StageAccess
import ShaderGraph.Proofs.Graph.Wiring
import ShaderGraph.Proofs.Matrices.Execution

/-!
# Graphs of vectors and matrices

The quantities that the pins of a graph carry if its nodes are constants and parameters with four
components, matrices made of axes and taken apart into them, transposed matrices, negations, sums,
differences, products and transformed vectors. How two matrices are multiplied is left open: targets
differ in it, and it matters only if some node multiplies matrices.
-/

open scoped Matrix

namespace ShaderGraph

def Literal.quantity? : Literal → Option Quantity
  | vector4 x y z w => some (.vector ![x.value, y.value, z.value, w.value])
  | _ => none

/-- An arithmetic operator with the given product of matrices. -/
def ArithmeticOperator.quantity? (product : Matrix4 → Matrix4 → Matrix4) :
    ArithmeticOperator → Quantity → Quantity → Option Quantity
  | add, q, r => q.zipWith? (· + ·) r
  | sub, q, r => q.zipWith? (· - ·) r
  | mul, .matrix l, .matrix r => some (.matrix (product l r))
  | mul, q, r => q.zipWith? (· * ·) r
  | div, _, _ => none

/-- The position of an axis by its pin. -/
def axisOf? (pin : String) : Option (Fin 4) :=
  (List.finRange 4).find? fun k ↦ Emitter.axisPins[k.val]? = some pin

/-- What a stage computes. -/
inductive StageOutput
  | position
  | color (index : Nat)
deriving DecidableEq, Repr

namespace NodeKind

/-- What an output carries for what the inputs carry, given the values of parameters. -/
def quantity? (product : Matrix4 → Matrix4 → Matrix4) (values : String → Vector4)
    (input : String → Quantity) (output : String) : NodeKind → Option Quantity
  | vector x y z w => some (.vector ![x.value, y.value, z.value, w.value])
  | uniform parameter t => if t = .vec4 then some (.vector (values parameter)) else none
  | matrixIn =>
    match input "XAxis", input "YAxis", input "ZAxis", input "Translate" with
    | .vector a, .vector b, .vector c, .vector d => some (.matrix (ofAxes a b c d))
    | _, _, _, _ => none
  | matrixOut =>
    match input "Input" with
    | .matrix m => (axisOf? output).map fun k ↦ .vector (m.col k)
    | _ => none
  | transpose =>
    match input "Input" with
    | .matrix m => some (.matrix mᵀ)
    | _ => none
  | negate => some (input "Input").negate
  | arithmetic op => op.quantity? product (input "Input1") (input "Input2")
  | transform =>
    match input "Transform", input "Input" with
    | .matrix m, .vector v => some (.vector (m *ᵥ v))
    | _, _ => none
  | _ => none

def isOutputOf : ShaderStage → NodeKind → Bool
  | .vertex => isVertexOutput
  | .pixel => isPixelOutput

/-- The inputs of a kind that are written to outputs, in order. -/
def targets : NodeKind → List (String × StageOutput)
  | vertexOutput => [("Input", .position)]
  | pixelOutput _ => Emitter.targetPins.zipIdx.map fun x ↦ (x.1, .color x.2)
  | _ => []

/-- Kinds whose output is a matrix. -/
def makesMatrix : NodeKind → Bool
  | matrixIn | transpose => true
  | _ => false

/-- Kinds whose output is a matrix if an input is one. -/
def passesMatrix : NodeKind → Bool
  | negate | arithmetic _ => true
  | _ => false

def isProduct : NodeKind → Bool
  | arithmetic .mul => true
  | _ => false

/-- Kinds of vector and matrix algebra, and the outputs of the stages. -/
def isAlgebraic : NodeKind → Bool
  | vector x y z w => [x, y, z, w].all Binary32.isFinite
  | uniform _ t => t = .vec4
  | arithmetic op => op ≠ .div
  | matrixIn | matrixOut | transpose | negate | transform | pixelOutput _ | vertexOutput => true
  | _ => false

section Quantities

variable {k : NodeKind} {product product' : Matrix4 → Matrix4 → Matrix4} {values : String → Vector4}
  {input input' : String → Quantity} {output : String} {q : Quantity} {m : Matrix4}

/-- Only the inputs of the layout count. -/
theorem quantity?_congr (h : ∀ spec ∈ k.inputPins, input spec.name = input' spec.name) :
    k.quantity? product values input output = k.quantity? product values input' output := by
  cases k <;> simp_all [quantity?, inputPins, PinSpec.required, PinSpec.axis]

/-- The product of matrices counts only where matrices are multiplied. -/
theorem quantity?_product
    (h : k.isProduct → ∀ spec ∈ k.inputPins, ∀ m, input spec.name ≠ .matrix m) :
    k.quantity? product values input output = k.quantity? product' values input output := by
  unfold quantity?
  split <;> try rfl
  next op =>
    cases op <;> try rfl
    have hleft := h rfl (.required "Input1") (by simp [inputPins])
    unfold ArithmeticOperator.quantity?
    split <;> simp_all [PinSpec.required]

end Quantities

end NodeKind

namespace Graph

/-- An output pin carries what its node makes of what its inputs carry: what the outputs carry that
drive them, else their defaults. -/
inductive Carries (g : Graph) (product : Matrix4 → Matrix4 → Matrix4) (values : String → Vector4) :
    PinId → Quantity → Prop
  | output {n : Node} {p : Pin} {input : String → Quantity} {q : Quantity}
    (hn : n ∈ g.nodes.values) (hp : p ∈ n.outputs)
    (driven : ∀ i ∈ n.inputs, ∀ c, g.driver? i.id = some c →
      Carries g product values c.fromPin (input i.name))
    (default : ∀ i ∈ n.inputs, g.driver? i.id = none →
      i.default?.bind Literal.quantity? = some (input i.name))
    (hq : n.kind.quantity? product values input p.name = some q) : Carries g product values p.id q

/-- What an input pin carries. -/
structure Receives (g : Graph) (product : Matrix4 → Matrix4 → Matrix4) (values : String → Vector4)
    (i : Pin) (q : Quantity) : Prop where
  driven : ∀ c, g.driver? i.id = some c → g.Carries product values c.fromPin q
  default : g.driver? i.id = none → i.default?.bind Literal.quantity? = some q

/-- An output pin that carries a matrix by the kinds of the nodes upstream of it. -/
inductive CarriesMatrix (g : Graph) : PinId → Prop
  | made {n : Node} {p : Pin} (hn : n ∈ g.nodes.values) (hp : p ∈ n.outputs)
    (hkind : n.kind.makesMatrix) : CarriesMatrix g p.id
  | passed {n : Node} {p i : Pin} {c : Connection} (hn : n ∈ g.nodes.values) (hp : p ∈ n.outputs)
    (hkind : n.kind.passesMatrix) (hi : i ∈ n.inputs)
    (hc : g.driver? i.id = some c) (h : CarriesMatrix g c.fromPin) : CarriesMatrix g p.id

/-- No node multiplies matrices. -/
def HasNoMatrixProduct (g : Graph) : Prop :=
  ∀ n ∈ g.nodes.values, n.kind.isProduct → ∀ i ∈ n.inputs, ∀ c ∈ g.driver? i.id,
    ¬ g.CarriesMatrix c.fromPin

/-- The graph is wired and made of vector and matrix algebra. Parameters are identifiers that are no
temporaries, and defaults have four components that are finite. -/
structure IsAlgebraic (g : Graph) : Prop where
  wired : g.IsWired
  kinds : ∀ n ∈ g.nodes.values, n.kind.isAlgebraic
  parameters : ∀ n ∈ g.nodes.values, ∀ name ∈ n.kind.parameterNames,
    IsIdentifier name ∧ isTemporary name = false
  defaults : ∀ n ∈ g.nodes.values, ∀ i ∈ n.inputs, ∀ l ∈ i.default?,
    l.type = .vec4 ∧ ∀ x ∈ l.components, x.isFinite

variable {g : Graph} {product product' : Matrix4 → Matrix4 → Matrix4} {values : String → Vector4}
  {n : Node} {p i : Pin} {pin : PinId} {q r : Quantity} {m : Matrix4}

/-- What a node receives at the input of a name. -/
def ReceivesAt (g : Graph) (product : Matrix4 → Matrix4 → Matrix4) (values : String → Vector4)
    (n : Node) (pin : String) (q : Quantity) : Prop :=
  ∃ i, n.input? pin = some i ∧ g.Receives product values i q

/-- An input that is not connected and has no default. -/
def IsAbsent (g : Graph) (n : Node) (pin : String) : Prop :=
  ∃ i, n.input? pin = some i ∧ g.driver? i.id = none ∧ i.default? = none

/-- The inputs that are written to the outputs of a stage, in order. -/
def targets (g : Graph) (stage : ShaderStage) : List (Node × String × StageOutput) :=
  (g.nodesOfKind (NodeKind.isOutputOf stage)).flatMap fun n ↦ n.kind.targets.map (n, ·)

/-- What is written for some inputs. Nothing is written for an input that is absent. -/
inductive Delivers (g : Graph) (product : Matrix4 → Matrix4 → Matrix4) (values : String → Vector4) :
    List (Node × String × StageOutput) → List (StageOutput × Vector4) → Prop
  | nil : Delivers g product values [] []
  | absent {n : Node} {pin : String} {output : StageOutput} {targets written}
    (habsent : g.IsAbsent n pin) (hrest : Delivers g product values targets written) :
    Delivers g product values ((n, pin, output) :: targets) written
  | written {n : Node} {pin : String} {output : StageOutput} {v : Vector4} {targets written}
    (hreceives : g.ReceivesAt product values n pin (.vector v))
    (hrest : Delivers g product values targets written) :
    Delivers g product values ((n, pin, output) :: targets) ((output, v) :: written)

/-- The inputs of a node are those of the layout of its kind. -/
theorem Carries.of_inputs {name : String} (input : String → Quantity) (hg : g.IsLaidOut)
    (hn : n ∈ g.nodes.values) (hp : n.output? name = some p)
    (hinput : ∀ spec ∈ n.kind.inputPins,
      g.ReceivesAt product values n spec.name (input spec.name))
    (hq : n.kind.quantity? product values input name = some q) :
    g.Carries product values p.id q := by
  have hreceives : ∀ i ∈ n.inputs, g.Receives product values i (input i.name) := by
    intro i hi
    have hname : i.name ∈ n.kind.inputPins.map PinSpec.name := by
      rw [← (hg.nodes n hn).inputs]
      exact List.mem_map_of_mem hi
    obtain ⟨spec, hspec, hname⟩ := List.mem_map.mp hname
    obtain ⟨j, hj, hreceives⟩ := hinput spec hspec
    rw [hname, (hg.nodes n hn).input?_name hi] at hj
    cases hj
    rwa [← hname]
  refine .output hn (List.mem_of_find?_eq_some hp) (fun i hi ↦ (hreceives i hi).driven)
    (fun i hi ↦ (hreceives i hi).default) ?_
  rwa [Node.name_of_output? hp]

/-! ## Carried quantities are unique -/

theorem IsLaidOut.mem_inputs {spec : PinSpec} (h : g.IsLaidOut) (hn : n ∈ g.nodes.values)
    (hspec : spec ∈ n.kind.inputPins) : ∃ i ∈ n.inputs, i.name = spec.name := by
  have hmem : spec.name ∈ n.inputs.map Pin.name := by
    rw [(h.nodes n hn).inputs]
    exact List.mem_map_of_mem hspec
  obtain ⟨i, hi, hname⟩ := List.mem_map.mp hmem
  exact ⟨i, hi, hname⟩

theorem Carries.unique (hg : g.IsLaidOut) (h : g.Carries product values pin q)
    (h' : g.Carries product values pin r) : q = r := by
  induction h generalizing r with
  | @output n p input q hn hp _ hdefault hq ih =>
    generalize hpin : p.id = pin at h'
    obtain @⟨n', p', input', _, hn', hp', hdriven', hdefault', hq'⟩ := h'
    have hnode : n = n' := HasDistinctPins.node_eq hg.pins hn hn'
      (List.mem_map_of_mem (List.mem_append_right _ hp))
      (hpin ▸ List.mem_map_of_mem (List.mem_append_right _ hp'))
    subst hnode
    obtain rfl := hg.pins_inj hn hp hp' hpin
    have hinputs : ∀ spec ∈ n.kind.inputPins, input spec.name = input' spec.name := by
      intro spec hspec
      obtain ⟨i, hi, hname⟩ := hg.mem_inputs hn hspec
      rw [← hname]
      cases hdriver : g.driver? i.id with
      | some c => exact ih i hi c hdriver (hdriven' i hi c hdriver)
      | none => exact Option.some.inj ((hdefault i hi hdriver).symm.trans (hdefault' i hi hdriver))
    rw [NodeKind.quantity?_congr hinputs, hq'] at hq
    exact (Option.some.inj hq).symm

theorem Receives.unique (hg : g.IsLaidOut) (h : g.Receives product values i q)
    (h' : g.Receives product values i r) : q = r := by
  cases hdriver : g.driver? i.id with
  | some c => exact (h.driven c hdriver).unique hg (h'.driven c hdriver)
  | none => exact Option.some.inj ((h.default hdriver).symm.trans (h'.default hdriver))

theorem ReceivesAt.unique {name : String} (hg : g.IsLaidOut)
    (h : g.ReceivesAt product values n name q) (h' : g.ReceivesAt product values n name r) :
    q = r := by
  obtain ⟨i, hi, hq⟩ := h
  obtain ⟨j, hj, hr⟩ := h'
  cases hi.symm.trans hj
  exact hq.unique hg hr

theorem IsAbsent.not_receivesAt {name : String} (h : g.IsAbsent n name) :
    ¬ g.ReceivesAt product values n name q := by
  rintro ⟨i, hi, hreceives⟩
  obtain ⟨j, hj, hdriver, hdefault⟩ := h
  cases hi.symm.trans hj
  have hnone := hreceives.default hdriver
  rw [hdefault] at hnone
  cases hnone

theorem Delivers.append {targets targets' : List (Node × String × StageOutput)}
    {written written' : List (StageOutput × Vector4)} (h : g.Delivers product values targets written)
    (h' : g.Delivers product values targets' written') :
    g.Delivers product values (targets ++ targets') (written ++ written') := by
  induction h with
  | nil => exact h'
  | absent habsent _ ih => exact .absent habsent ih
  | written hreceives _ ih => exact .written hreceives ih

theorem Delivers.unique {targets : List (Node × String × StageOutput)}
    {written written' : List (StageOutput × Vector4)} (hg : g.IsLaidOut)
    (h : g.Delivers product values targets written)
    (h' : g.Delivers product values targets written') : written = written' := by
  induction h generalizing written' with
  | nil =>
    cases h'
    rfl
  | absent habsent _ ih =>
    cases h' with
    | absent _ hrest => exact ih hrest
    | written hreceives _ => exact absurd hreceives habsent.not_receivesAt
  | written hreceives _ ih =>
    cases h' with
    | absent habsent _ => exact absurd hreceives habsent.not_receivesAt
    | written hreceives' hrest =>
      cases hreceives.unique hg hreceives'
      rw [ih hrest]

/-! ## Where matrices are multiplied -/

theorem quantity?_ne_matrix {l : Literal} : l.quantity? ≠ some (.matrix m) := by
  cases l <;> simp [Literal.quantity?]

theorem Receives.driven_of_matrix (h : g.Receives product values i (.matrix m)) :
    ∃ c, g.driver? i.id = some c ∧ g.Carries product values c.fromPin (.matrix m) := by
  cases hdriver : g.driver? i.id with
  | some c => exact ⟨c, rfl, h.driven c hdriver⟩
  | none =>
    obtain ⟨l, -, hl⟩ := Option.bind_eq_some_iff.mp (h.default hdriver)
    exact absurd hl quantity?_ne_matrix

/-- Only matrices are negated or combined to matrices. -/
theorem exists_matrix_of_arithmetic {op : ArithmeticOperator}
    (h : op.quantity? product q r = some (.matrix m)) : ∃ l, q = .matrix l := by
  cases q with
  | matrix l => exact ⟨l, rfl⟩
  | scalar | vector => cases op <;> cases r <;> cases h

/-- Matrices are made by nodes of some kinds and passed on by nodes of others. -/
theorem matrix_cases {k : NodeKind} {input : String → Quantity} {output : String}
    (h : k.quantity? product values input output = some (.matrix m)) :
    k.makesMatrix ∨
      k.passesMatrix ∧ ∃ spec ∈ k.inputPins, ∃ l, input spec.name = .matrix l := by
  cases k with
  | matrixIn | transpose => exact .inl rfl
  | negate =>
    refine .inr ⟨rfl, .required "Input", List.mem_cons_self, ?_⟩
    have hnegated : (input "Input").negate = .matrix m := Option.some.inj h
    change ∃ l, input "Input" = .matrix l
    cases hinput : input "Input" with
    | matrix l => exact ⟨l, rfl⟩
    | scalar | vector =>
      rw [hinput] at hnegated
      cases hnegated
  | arithmetic op =>
    exact .inr ⟨rfl, .required "Input1", List.mem_cons_self, exists_matrix_of_arithmetic h⟩
  | matrixOut =>
    simp only [NodeKind.quantity?] at h
    split at h
    · obtain ⟨k, -, hk⟩ := Option.map_eq_some_iff.mp h
      cases hk
    · cases h
  | transform =>
    simp only [NodeKind.quantity?] at h
    split at h <;> cases h
  | uniform parameter t =>
    simp only [NodeKind.quantity?] at h
    split at h <;> cases h
  | _ => cases h

theorem Carries.carriesMatrix (hg : g.IsLaidOut) (h : g.Carries product values pin (.matrix m)) :
    g.CarriesMatrix pin := by
  generalize hq : Quantity.matrix m = q at h
  induction h generalizing m with
  | @output n p input q hn hp hdriven hdefault hcarried ih =>
    subst hq
    obtain hmade | ⟨hpassed, spec, hspec, l, hl⟩ := matrix_cases hcarried
    · exact .made hn hp hmade
    · obtain ⟨i, hi, hname⟩ := hg.mem_inputs hn hspec
      have hreceives : g.Receives product values i (.matrix l) := by
        rw [← hl, ← hname]
        exact ⟨hdriven i hi, hdefault i hi⟩
      obtain ⟨c, hc, -⟩ := hreceives.driven_of_matrix
      exact .passed hn hp hpassed hi hc (ih i hi c hc (by rw [hname, hl]))

/-- A set of pins that is closed under what nodes do with matrices contains all pins that carry one. -/
theorem CarriesMatrix.mem {pins : List PinId} (h : g.CarriesMatrix pin)
    (hmade : ∀ n ∈ g.nodes.values, n.kind.makesMatrix → ∀ p ∈ n.outputs, p.id ∈ pins)
    (hpassed : ∀ n ∈ g.nodes.values, n.kind.passesMatrix → ∀ i ∈ n.inputs, ∀ c ∈ g.driver? i.id,
      c.fromPin ∈ pins → ∀ p ∈ n.outputs, p.id ∈ pins) : pin ∈ pins := by
  induction h with
  | made hn hp hkind => exact hmade _ hn hkind _ hp
  | passed hn hp hkind hi hc _ ih => exact hpassed _ hn hkind _ hi _ hc ih _ hp

/-- Graphs that do not multiply matrices carry the same for every product of matrices. -/
theorem Carries.of_product (hg : g.IsLaidOut) (hproduct : g.HasNoMatrixProduct)
    (h : g.Carries product values pin q) : g.Carries product' values pin q := by
  induction h with
  | @output n p input q hn hp hdriven hdefault hq ih =>
    refine .output hn hp ih hdefault ?_
    rw [← hq]
    refine NodeKind.quantity?_product fun hkind spec hspec m hm ↦ ?_
    obtain ⟨i, hi, hname⟩ := hg.mem_inputs hn hspec
    have hreceives : g.Receives product values i (.matrix m) := by
      rw [← hm, ← hname]
      exact ⟨hdriven i hi, hdefault i hi⟩
    obtain ⟨c, hc, hmatrix⟩ := hreceives.driven_of_matrix
    exact hproduct n hn hkind i hi c hc (hmatrix.carriesMatrix hg)

theorem ReceivesAt.of_product {name : String} (hg : g.IsLaidOut) (hproduct : g.HasNoMatrixProduct)
    (h : g.ReceivesAt product values n name q) : g.ReceivesAt product' values n name q := by
  obtain ⟨i, hi, hreceives⟩ := h
  exact ⟨i, hi, fun c hc ↦ (hreceives.driven c hc).of_product hg hproduct, hreceives.default⟩

theorem Delivers.of_product {targets : List (Node × String × StageOutput)}
    {written : List (StageOutput × Vector4)} (hg : g.IsLaidOut) (hproduct : g.HasNoMatrixProduct)
    (h : g.Delivers product values targets written) :
    g.Delivers product' values targets written := by
  induction h with
  | nil => exact .nil
  | absent habsent _ ih => exact .absent habsent ih
  | written hreceives _ ih => exact .written (hreceives.of_product hg hproduct) ih

end Graph

end ShaderGraph
