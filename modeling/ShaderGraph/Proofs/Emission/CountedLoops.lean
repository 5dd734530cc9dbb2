import ShaderGraph.Proofs.Emission.Evaluation
import ShaderGraph.Proofs.Graph.Editing
import ShaderGraph.Proofs.Numeric.Counting

/-!
# Counted loops

A counted loop has one or two counters with whole bounds. Its headers name the bounds and test a float
against the upper one, so up to `2 ^ 24` such a loop passes once for each whole number between its
bounds, unless the upper bound is `2 ^ 24` itself: a counter does not get past it.
-/

namespace ShaderGraph

open EmitM Emitter

variable {demand : Demand} {env : EmitEnv} {n : Node} {s t : EmitState}

/-- The bounds of the counters of a counted loop, of the outermost counter first. -/
def NodeKind.bounds : NodeKind → List (Int32 × Int32)
  | .iterate first last => [(first, last)]
  | .iterate2d firstX lastX firstY lastY => [(firstX, lastX), (firstY, lastY)]
  | .sum first last => [(first, last)]
  | _ => []

/-- The part of a header between its parentheses counts from one whole number to another: it names
both, and if the loop ends, which it does unless the last number cannot be passed, the counter has been
each number between them once. -/
structure CountsBetween (header name : String) (first last : Int) : Prop where
  text : header = s!"{name} = {first}.0; {name} <= {last}.0; ++{name}"
  passes : ∃ low high : Binary32, Binary32.ofText? s!"{first}.0".toList = some low ∧
    Binary32.ofText? s!"{last}.0".toList = some high ∧ low.value = first ∧ high.value = last ∧
    ((∃ xs, high.CountsTo low xs) ↔ last < 2 ^ 24 ∨ last < first) ∧
    ∀ xs, high.CountsTo low xs → xs.map Binary32.value = Binary32.wholeNumbers first last ∧
      (xs.length : Int) = max 0 (last - first + 1)

theorem Counter.countsBetween (pin name : String) {first last : Int32}
    (hfirst : first.toInt.natAbs ≤ 2 ^ 24) (hlast : last.toInt.natAbs ≤ 2 ^ 24) :
    CountsBetween ((Counter.mk pin (some (first, last))).header name) name first.toInt last.toInt := by
  have hlow := Binary32.literal_ofInt hfirst
  have hhigh := Binary32.literal_ofInt hlast
  obtain ⟨hfinite, -, -, hvalue⟩ := Binary32.ofInt_spec hfirst
  obtain ⟨hfinite', -, -, hvalue'⟩ := Binary32.ofInt_spec hlast
  refine ⟨?_, _, _, ?_, ?_, hvalue, hvalue', Binary32.exists_countsTo_iff hfirst hlast, ?_⟩
  · rw [Counter.header]
    simp only [hlow, hhigh, toString_text, String.append_assoc]
    rfl
  · rw [← hlow, Binary32.ofText?_literal hfinite]
  · rw [← hhigh, Binary32.ofText?_literal hfinite']
  · intro xs hxs
    have hmap := hxs.map_value (Binary32.isNaN_of_isFinite hfinite') hvalue'
      (Binary32.isNaN_of_isFinite hfinite) hvalue (by omega) (by omega)
    refine ⟨hmap, ?_⟩
    rw [← List.length_map (f := Binary32.value), hmap, Binary32.length_wholeNumbers]
    omega

/-- A counted loop is emitted with the counters that its bounds say. -/
theorem emitKind_of_bounds (demand : Demand) (h : n.kind.bounds ≠ []) :
    ∃ loop : Loop, emitKind demand n = emitLoop demand n loop ∧
      loop.counters.map Counter.bounds? = n.kind.bounds.map some := by
  cases hkind : n.kind with
  | iterate first last =>
    exact ⟨_, by rw [emitKind, hkind], rfl⟩
  | iterate2d firstX lastX firstY lastY =>
    exact ⟨_, by rw [emitKind, hkind], rfl⟩
  | sum first last =>
    exact ⟨_, by rw [emitKind, hkind], rfl⟩
  | _ =>
    rw [hkind] at h
    exact absurd rfl h

theorem countsBetween_zip {counters : List Counter} {names : List String}
    {bounds : List (Int32 × Int32)} (hlength : names.length = counters.length)
    (hcounters : counters.map Counter.bounds? = bounds.map some)
    (hbounds : ∀ b ∈ bounds, b.1.toInt.natAbs ≤ 2 ^ 24 ∧ b.2.toInt.natAbs ≤ 2 ^ 24) :
    List.Forall₂ (fun p b ↦ CountsBetween (p.1.header p.2) p.2 b.1.toInt b.2.toInt)
      (counters.zip names) bounds := by
  induction bounds generalizing counters names with
  | nil =>
    obtain rfl := List.map_eq_nil_iff.mp hcounters
    exact .nil
  | cons b bounds ih =>
    obtain ⟨c, counters, rfl, hb, hrest⟩ := List.map_eq_cons_iff.mp hcounters
    obtain ⟨name, names, rfl⟩ := List.exists_cons_of_length_eq_add_one hlength
    obtain ⟨hfirst, hall⟩ := List.forall_mem_cons.mp hbounds
    obtain ⟨pin, bounds?⟩ := c
    obtain rfl : bounds? = some b := hb
    exact .cons (Counter.countsBetween pin name hfirst.1 hfirst.2) (ih (Nat.succ.inj hlength) hrest hall)

/-- The state ends in a loop of which the headers count between the bounds of the node. -/
def CountsThroughBounds (n : Node) (t : EmitState) : Prop :=
  ∃ (u : EmitState) (loop : Loop) (names : List String) (scalar body assignment : String)
    (condition? : Option String),
    t = u.modifyBody (writeLoop loop names scalar body condition? assignment) ∧
    (∃ k, names = (List.range' k loop.counters.length).map temporary) ∧
    List.Forall₂ (fun p b ↦ CountsBetween (p.1.header p.2) p.2 b.1.toInt b.2.toInt)
      (loop.counters.zip names) n.kind.bounds

theorem emitKind_countsThroughBounds (hcounted : n.kind.bounds ≠ [])
    (hbounds : ∀ b ∈ n.kind.bounds, b.1.toInt.natAbs ≤ 2 ^ 24 ∧ b.2.toInt.natAbs ≤ 2 ^ 24)
    (h : Returns env (emitKind demand n) s () t) : CountsThroughBounds n t := by
  obtain ⟨loop, hemit, hcounters⟩ := emitKind_of_bounds demand hcounted
  rw [hemit] at h
  cases loopRun_of_returns h with
  | @intro s₁ s₂ entry v initial? names name scalar start result p declared type value condition?
    attribute? _ _ _ _ hnames _ _ _ _ _ _ _ _ _ hexit =>
    refine ⟨((v.endCapture s₂.stage).retype p.id type).modifyBody fun b ↦
      attribute?.toList.foldl CodeBuffer.line
        (b.line s!"{name} {temporary s₂.nextVariable} = {start};"),
      loop, names, scalar, v.capturedText s₂.stage,
      s!"{temporary s₂.nextVariable} {loopOperator loop.accumulate} {result};", condition?, ?_,
      ⟨_, hnames⟩, countsBetween_zip (by simp [hnames]) hcounters hbounds⟩
    rw [hexit, EmitState.modifyBody_modifyBody]

/-- A loop over a long row and an empty one. -/
def longRow : Graph :=
  .numbered [.pixelOutput {}, .iterate2d (-16777216) 16777215 5 2, .uniform "A" .scalar]
    [⟨1, "Output", 0, "Input"⟩, ⟨2, "Output", 1, "Input"⟩]

theorem emitKind_countsThroughBounds_longRow :
    ∃ n t, longRow.node? (Graph.nodeNumber 1) = some n ∧
      n.kind.bounds = [(-16777216, 16777215), (5, 2)] ∧
      Returns ⟨longRow, {}⟩ (emitKind evaluate n) {} () t ∧
      CountsThroughBounds n t := by
  obtain ⟨n, hn⟩ : ∃ n, longRow.node? (Graph.nodeNumber 1) = some n :=
    Option.isSome_iff_exists.mp (by decide +kernel)
  have hbounds : ∀ n ∈ longRow.node? (Graph.nodeNumber 1),
      n.kind.bounds = [(-16777216, 16777215), (5, 2)] := by
    decide +kernel
  have hrun : ∀ n ∈ longRow.node? (Graph.nodeNumber 1),
      ((emitKind evaluate n).run ⟨longRow, {}⟩).run.run {} |>.1.isOk := by
    decide +kernel
  have hbounds := hbounds n hn
  obtain ⟨⟨⟩, t, h⟩ := isOk_iff_returns.mp (hrun n hn)
  exact ⟨n, t, hn, hbounds, h, emitKind_countsThroughBounds (by simp [hbounds]) (by simp [hbounds]) h⟩

/-- A loop that should pass once. Both bounds become the float below them, and the loop never ends. -/
def lossyLoop : Graph :=
  .numbered [.pixelOutput {}, .iterate 16777217 16777217, .uniform "A" .scalar]
    [⟨1, "Output", 0, "Input"⟩, ⟨2, "Output", 1, "Input"⟩]

theorem emission_lossyLoop :
    lossyLoop.Built ∧
      (∃ s, emission {} lossyLoop = .ok s ∧ textLines s.pixel.main.text =
        ["float v0 = 0.0;", "for (float v1 = 16777216.0; v1 <= 16777216.0; ++v1)", "\x7b",
          "\tv0 = A;", "\x7d", "_gl_FragData_0 = vec4(v0);"]) ∧
      ¬ ∃ xs, (Binary32.ofInt 16777217).CountsTo (Binary32.ofInt 16777217) xs := by
  refine ⟨Graph.built_numbered _ _, ?_, ?_⟩
  · refine exists_emission_of_lines {} lossyLoop .pixel ?_ (by decide +kernel)
    repeat refine forall_isLine_cons (by decide) ?_
    exact List.forall_mem_nil _
  · have hround : Binary32.ofInt 16777217 = Binary32.ofInt (2 ^ 24) := by decide +kernel
    rw [hround, Binary32.exists_countsTo_iff (by decide) (by decide)]
    decide

end ShaderGraph
