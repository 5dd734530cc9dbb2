import ShaderGraph.Proofs.Definitions.Subroutines
import ShaderGraph.Proofs.Placement.Loops
import ShaderGraph.Proofs.Trace.Program

/-!
# Outputs of loops

The output of a loop is declared in front of it at a numeric type. If an initial value fixes that type, the
body of the loop reads the output at no other type, however deep in the body, and what the body yields is
converted to it. Without an initial value the body sees the output as `void` until its own value fixes the
type, and so does the body of a sum, which has no pin for one. What is read at `void` is used as it is, so the
body may combine it with wider values than the declaration provides for.
-/

namespace ShaderGraph

open EmitM Emitter

/-- Whether the loop has an initial value: a connection or a default on its pin for it. -/
def Node.HasInitialValue (g : Graph) (n : Node) : Prop :=
  ∃ p, n.input? "Initial" = some p ∧ ((g.driver? p.id).isSome ∨ p.default?.isSome)

/-- The loop that the emitter of a kind writes. -/
def NodeKind.loop? : NodeKind → Option Loop
  | .iterate first last => some { counters := [⟨"N", some (first, last)⟩] }
  | .iterate2d firstX lastX firstY lastY =>
    some { counters := [⟨"X", some (firstX, lastX)⟩, ⟨"Y", some (firstY, lastY)⟩] }
  | .sum first last => some { counters := [⟨"N", some (first, last)⟩], accumulate := true }
  | .repeatWhile => some { counters := [⟨"N", none⟩], conditionRequired := true }
  | _ => none

/-! ## Reads of an output -/

namespace EmitM

/-- Passes on the value of a pin, unless that pin is an output which is read in a stage as anything else
than expected. -/
def checkRead (home : ShaderStage) (output : PinId) (expected : Variable) (refusal : CompileError)
    (pin : PinId) (v : Variable) : EmitM Variable := do
  if (← currentStage) = home ∧ pin = output ∧ v ≠ expected then throw refusal else return v

/-- Evaluates an output like `evaluateWithin`, and fails where in the course of this one output is read in
a stage as anything else than expected. -/
def evaluateReading (home : ShaderStage) (output : PinId) (expected : Variable)
    (refusal : CompileError) : Nat → Demand
  | 0, id, pin => evaluateWithin 0 id pin >>= checkRead home output expected refusal pin
  | depth + 1, id, pin =>
    evaluateStep (evaluateReading home output expected refusal depth) id pin >>=
      checkRead home output expected refusal pin

end EmitM

section Reading

variable {env : EmitEnv} {n : Node} {depth : Nat} {s t : EmitState} {home : ShaderStage}
  {output : PinId} {expected : Variable} {refusal : CompileError} {loop : Loop}

/-- The output is bound in the stage to the variable that is expected. -/
def EmitState.BindsTo (s : EmitState) (home : ShaderStage) (output : PinId) (expected : Variable) :
    Prop :=
  (s.shader home).binding? output = some expected

/-- Emitters of other nodes leave the output bound as it is. -/
theorem EmitState.BindsTo.of_keeps {own : List PinId} (hs : s.BindsTo home output expected)
    (hown : s.stage = home → output ∉ own) (h : s.Keeps own t) : t.BindsTo home output expected := by
  refine (h.shader home).bound output ?_ expected hs
  split
  · next hstage => exact hown hstage.symm
  · exact List.not_mem_nil

theorem lasting_bindsTo (home : ShaderStage) (output : PinId) (expected : Variable) :
    Lasting (EmitState.BindsTo · home output expected) where
  keeps _ _ hs h := hs.of_keeps (fun _ ↦ List.not_mem_nil) h
  beginCapture s hs := by
    rw [EmitState.BindsTo, EmitState.beginCapture]
    by_cases hhome : home = s.stage
    · rw [hhome, EmitState.shader_modifyShader, ← hhome]
      exact hs
    · rw [EmitState.shader_modifyShader_of_ne _ _ hhome]
      exact hs
  beginNode s id hs := by
    cases home <;> exact hs
  enter s stage hs := by
    cases home <;> exact hs

/-- While the output is bound as expected, nothing else is read. -/
theorem sameRun_checkRead {id : NodeId} {pin : PinId} {x : EmitM Variable}
    (hs : s.BindsTo home output expected) (hkeyed : env.graph.IsKeyed)
    (h : SameRun env s x (evaluateWithin depth id pin)) :
    SameRun env s (x >>= checkRead home output expected refusal pin) (evaluateWithin depth id pin) := by
  have hpure : SameRun env s (evaluateWithin depth id pin >>= pure) (evaluateWithin depth id pin) := by
    rw [bind_pure]
    rfl
  refine Eq.trans (h.bind fun v t ht ↦ ?_) hpure
  have hbound : t.binding? pin = some v := by
    obtain ⟨hbound, rfl⟩ | ⟨_, _, _, _, _, _, _, _, _, _, hbound⟩ := evaluateWithin_cases ht
    · exact hbound
    · exact hbound
  have hkept : t.BindsTo home output expected :=
    (lasting_bindsTo home output expected).keeps s t hs (keeps_evaluateWithin hkeyed (r := .ok v) ht)
  rw [SameRun, checkRead, run_bind_of_returns (returns_currentStage.mpr ⟨rfl, rfl⟩), if_neg]
  rintro ⟨rfl, rfl, hne⟩
  exact hne (Option.some.inj (hbound.symm.trans hkept))

/-- An evaluation that starts while the output is bound as expected does not read it otherwise. -/
theorem sameRun_evaluateReading (hkeyed : env.graph.IsKeyed) (depth : Nat) (id : NodeId) (pin : PinId)
    (hs : s.BindsTo home output expected) :
    SameRun env s (evaluateReading home output expected refusal depth id pin)
      (evaluateWithin depth id pin) := by
  induction depth generalizing s id pin with
  | zero => exact sameRun_checkRead hs hkeyed rfl
  | succ depth ih =>
    refine sameRun_checkRead hs hkeyed ?_
    rw [evaluateWithin_succ]
    refine sameRun_evaluateWith fun n hstarts ↦ sameRun_runNode ?_
    have hlasting := lasting_bindsTo home output expected
    refine sameRun_emitKind hkeyed hlasting (hlasting.beginNode s n.id hs) ?_ fun o _ t ht _ ↦
      ih o.node o.pin ht
    -- The node that starts is not the one that has the output, for this one is bound.
    intro t u ht hstage hkeeps
    refine ht.of_keeps (fun hhome hown ↦ ?_) hkeeps
    obtain ⟨q, hq, rfl⟩ := List.mem_map.mp hown
    have hunbound : (s.shader s.stage).binding? q.id = none := hstarts.outputs_unbound q hq
    rw [show s.stage = home from hstage.symm.trans hhome] at hunbound
    exact absurd (hs.symm.trans hunbound) (by simp)

/-! ## Bodies -/

/-- The counters of a loop are bound beside its output. -/
theorem bindsTo_of_counters {ps : List (Counter × String)}
    (hpins : ∀ p ∈ ps, ∀ q, n.output? p.1.pin = some q → q.id ≠ output)
    (hs : s.BindsTo home output expected)
    (h : Returns env (forIn ps PUnit.unit fun p _ ↦ do
      let _ ← bindOutput n p.1.pin ⟨p.2, .scalar⟩
      pure (.yield ⟨⟩)) s ⟨⟩ t) :
    t.BindsTo home output expected := by
  induction ps generalizing s with
  | nil =>
    obtain rfl := returns_forIn_nil.mp h
    exact hs
  | cons p ps ih =>
    obtain ⟨hp, hps⟩ := List.forall_mem_cons.mp hpins
    obtain ⟨u, hfirst, hrest⟩ := (returns_forIn_cons
      (g := fun p ↦ bindOutput n p.1.pin ⟨p.2, .scalar⟩ >>= fun _ ↦ pure ⟨⟩)
      (fun p ↦ by simp)).mp h
    simp only [returns_bind, returns_bindOutput, returns_pure] at hfirst
    obtain ⟨_, _, ⟨q, hq, rfl, rfl⟩, -, rfl⟩ := hfirst
    refine ih hps ?_ hrest
    have hkeeps : s.Retains [q.id] (s.bindPin q.id ⟨p.2, .scalar⟩) :=
      .modifyShader (.bind List.mem_cons_self _ _)
    refine (hkeeps.shader home).bound output ?_ expected hs
    split
    · exact fun hmem ↦ hp q hq (List.mem_singleton.mp hmem).symm
    · exact List.not_mem_nil

/-- The body of a loop reads the output of the loop as it is bound in front of the body. -/
theorem sameRun_loopBody (hkeyed : env.graph.IsKeyed) (depth : Nat) (refusal : CompileError)
    (names : List String)
    (hpins : ∀ counter ∈ loop.counters, ∀ q, n.output? counter.pin = some q → q.id ≠ output)
    (hs : s.BindsTo home output expected) :
    SameRun env s
      (loopBody (evaluateReading home output expected refusal depth) n loop names)
      (loopBody (evaluateWithin depth) n loop names) := by
  have hlasting := lasting_bindsTo home output expected
  have hrun {α : Type} {x : Demand → EmitM α} (hx : Composed env n none [] x) {t : EmitState}
      (ht : t.BindsTo home output expected) :
      SameRun env t (x (evaluateReading home output expected refusal depth))
        (x (evaluateWithin depth)) :=
    hx.sameRun hkeyed hlasting (fun s t hs _ ↦ hlasting.keeps s t hs)
      (fun o _ u hu _ ↦ sameRun_evaluateReading hkeyed depth o.node o.pin hu) ht rfl
  refine SameRun.bind rfl fun _ t hcounters ↦ ?_
  have ht : t.BindsTo home output expected :=
    bindsTo_of_counters (fun p hp ↦ hpins p.1 (List.of_mem_zip hp).1) hs hcounters
  refine (hrun (.loopCondition? loop.conditionRequired) ht).bind fun condition? u hu ↦ ?_
  have hcondition : Composed env n none [] fun demand ↦
    loopCondition? demand n loop.conditionRequired := .loopCondition? _
  have hkeeps : t.Keeps [] u := hcondition.keeps depth hkeyed (r := .ok condition?) hu
  exact (hrun (.requireInput "Input") (hlasting.keeps t u ht hkeeps)).bind fun _ _ _ ↦ rfl

end Reading

/-! ## Runs of loops -/

section Runs

variable {env : EmitEnv} {demand : Demand} {n : Node} {loop : Loop} {depth : Nat} {s t : EmitState}

/-- An input that is driven or has a default has a value. -/
theorem isSome_of_inputValue? {pin : String} {p : Pin} {value? : Option Variable}
    (h : Returns env (inputValue? demand n pin) s value? t) (hp : n.input? pin = some p)
    (hvalue : (env.graph.driver? p.id).isSome ∨ p.default?.isSome) : value?.isSome := by
  simp only [inputValue?, hp, returns_bind, returns_read] at h
  obtain ⟨_, s₁, ⟨rfl, rfl⟩, h⟩ := h
  cases hdriver : env.graph.driver? p.id with
  | some c =>
    simp only [hdriver, returns_bind, returns_pure] at h
    obtain ⟨v, _, -, rfl, -⟩ := h
    rfl
  | none =>
    obtain ⟨l, hl⟩ := Option.isSome_iff_exists.mp (hvalue.resolve_left (by simp [hdriver]))
    simp only [hdriver, hl, returns_bind, returns_pure] at h
    obtain ⟨d, _, -, rfl, -⟩ := h
    rfl

/-- The initial value of a loop is numeric, and is there if the loop has one. -/
theorem initialValue?_spec {initial? : Option Variable}
    (h : Returns env (initialValue? demand n) s initial? t) :
    (∀ v ∈ initial?, v.type.isNumeric) ∧ (n.HasInitialValue env.graph → initial?.isSome) := by
  obtain ⟨_, -, hnumeric, -⟩ := steps_initialValue? (H := {}) h
  refine ⟨fun v hv ↦ (hnumeric v hv).2, fun ⟨p, hp, hvalue⟩ ↦ ?_⟩
  simp only [initialValue?, hp, Option.isNone_some, Bool.false_eq_true, if_false, returns_bind] at h
  obtain ⟨value?, s₁, hread, h⟩ := h
  have hsome := isSome_of_inputValue? hread hp hvalue
  cases value? with
  | none => cases hsome
  | some v =>
    dsimp only at h
    split at h
    · simp [returns_map, returns_throw] at h
    · obtain ⟨rfl, -⟩ := returns_pure.mp h
      rfl

/-- In front of the body the output of its loop is bound. -/
theorem bindsTo_allocate (s : EmitState) (pin : PinId) (type : ValueType) (k : Nat) :
    EmitState.BindsTo { s.allocate pin type with nextVariable := k } s.stage pin
      ⟨temporary s.nextVariable, type⟩ := by
  obtain ⟨stage, _⟩ := s
  cases stage <;> exact congrArg (Option.or · _) List.lookup_cons_self

/-- A run of the emitter of a loop whose body reads the output at one type and that declares it with
another or the same. In front of the body the output is bound at the type for reads, and the body is captured
all the same if no read of the output in it may give anything else. The output is declared and starts at the
declared type, and what the body yields is converted to that type. -/
def TypesOutput (env : EmitEnv) (depth : Nat) (n : Node) (loop : Loop) (read declared : ValueType)
    (s t : EmitState) : Prop :=
  ∃ (p : Pin) (initial? : Option Variable) (name : String) (value : Variable) (names : List String)
    (entry exit : EmitState) (condition? attribute? : Option String)
    (body type scalar start result : String),
    n.output? "Output" = some p ∧
    Returns env (loopHead (evaluateWithin depth) n loop) s ⟨initial?, ⟨name, read⟩, names⟩ entry ∧
    entry.BindsTo s.stage p.id ⟨name, read⟩ ∧
    (∀ refusal, Returns env
      (capture (loopBody (evaluateReading s.stage p.id ⟨name, read⟩ refusal depth) n loop names)) entry
      ((value, condition?), body) exit) ∧
    declared.isNumeric ∧ env.dialect.typeName? declared = some type ∧
    value.cast declared env.dialect = .ok result ∧
    ((∃ v ∈ initial?, loop.accumulate = false ∧ v.cast declared env.dialect = .ok start) ∨
      ((initial? = none ∨ loop.accumulate = true) ∧
        start = env.dialect.scalarLiteral declared .zero)) ∧
    t = (exit.retype p.id declared).modifyBody fun b ↦
      writeLoop loop names scalar body condition?
        s!"{name} {loopOperator loop.accumulate} {result};"
        (attribute?.toList.foldl CodeBuffer.line (b.line s!"{type} {name} = {start};"))

/-- The head of a loop is what its run begins with. -/
theorem returns_loopHead_of_parts {s₁ s₂ entry : EmitState} {initial? : Option Variable} {p : Pin}
    {head : LoopHead}
    (hhoist : Returns env (hoist demand (env.graph.frontier n ["Input", "Condition"])) s () s₁)
    (hinitial : Returns env (initialValue? demand n) s₁ initial? s₂)
    (hp : n.output? "Output" = some p) (hhead : Returns env (loopHead demand n loop) s head entry) :
    let declared := (initial?.map Variable.type).getD .void
    head = ⟨initial?, ⟨temporary s₂.nextVariable, declared⟩,
        (List.range' (s₂.nextVariable + 1) loop.counters.length).map temporary⟩ ∧
      entry = { s₂.allocate p.id declared with
        nextVariable := s₂.nextVariable + 1 + loop.counters.length } := by
  simp only [loopHead, returns_bind, returns_read, returns_emitOutput, returns_pure] at hhead
  obtain ⟨_, _, ⟨rfl, rfl⟩, ⟨⟩, _, hhoist', initial'?, s₃, hinitial', _, _, ⟨q, hq, rfl, rfl⟩, names,
    _, hnames, rfl, rfl⟩ := hhead
  cases hhoist.symm.trans hhoist'
  cases hinitial.symm.trans hinitial'
  obtain rfl : p = q := Option.some.inj (hp.symm.trans hq)
  obtain ⟨rfl, rfl⟩ := returns_freshNames hnames
  rw [EmitState.nextVariable_allocate]
  exact ⟨rfl, rfl⟩

/-- The output of a loop is read as it is declared, or at `void` if the loop has no initial value. -/
theorem exists_typesOutput (hkeyed : env.graph.IsKeyed) (hloop : n.kind.isLoop)
    (hpins : ∀ p, n.output? "Output" = some p → ∀ counter ∈ loop.counters, ∀ q,
      n.output? counter.pin = some q → q.id ≠ p.id)
    (h : Returns env (emitLoop (evaluateWithin depth) n loop) s () t) :
    ∃ read declared, TypesOutput env depth n loop read declared s t ∧
      (n.HasInitialValue env.graph → read = declared) ∧ (read = declared ∨ read = .void) := by
  obtain ⟨head, entry', _, _, hhead, -⟩ := exists_loopHead h
  cases loopRun_of_returns h with
  | @intro s₁ s₂ entry u initial? names type scalar start result p read declared value condition?
    attribute? hhoist hinitial hread hp hnames hentry hbody htype hnumeric hname _ hresult hstart _
    hexit =>
    obtain ⟨hparts, hsame⟩ := returns_loopHead_of_parts hhoist hinitial hp hhead
    rw [← hread, ← hnames] at hparts
    obtain rfl : entry' = entry := by rw [hsame, hentry, hread]
    rw [hparts] at hhead
    have hstage : entry'.stage = s.stage := (LoopHead.mem_boundPins hkeyed hloop hhead).1
    have hbefore : s₂.stage = s.stage := by
      rw [← hstage, hentry]
      exact (EmitState.stage_allocate s₂ p.id read).symm
    have hbinds : entry'.BindsTo s.stage p.id ⟨temporary s₂.nextVariable, read⟩ := by
      rw [hentry, ← hbefore]
      exact bindsTo_allocate s₂ p.id read _
    rw [hbefore] at hexit
    refine ⟨read, declared, ⟨p, initial?, temporary s₂.nextVariable, value, names, entry',
      u.endCapture s.stage, condition?, attribute?, u.capturedText s.stage, type, scalar, start, result,
      hp, hhead, hbinds, fun refusal ↦ ?_, hnumeric, hname, hresult, hstart, hexit⟩, fun hvalue ↦ ?_, ?_⟩
    · have hentered := (lasting_bindsTo s.stage p.id
        ⟨temporary s₂.nextVariable, read⟩).beginCapture entry' hbinds
      have hrun := (sameRun_loopBody hkeyed depth refusal names (hpins p hp) hentered).returns hbody
      exact returns_capture.mpr ⟨u, hrun, by rw [hstage], by rw [hstage]⟩
    · obtain ⟨hnumerics, hsome⟩ := initialValue?_spec hinitial
      obtain ⟨initial, rfl⟩ := Option.isSome_iff_exists.mp (hsome hvalue)
      have hne : read ≠ .void := fun hvoid ↦ by
        have hinitial := hnumerics initial rfl
        rw [show initial.type = .void from hread.symm.trans hvoid] at hinitial
        cases hinitial
      rw [htype, if_neg hne]
    · by_cases hvoid : read = .void
      · exact .inr hvoid
      · exact .inl (by rw [htype, if_neg hvoid])

/-- The emitter of a loop node writes the loop. -/
theorem returns_emitLoop_of_loop? (hloop : n.kind.loop? = some loop)
    (h : Returns env (emitKind demand n) s () t) : Returns env (emitLoop demand n loop) s () t := by
  unfold emitKind at h
  cases hkind : n.kind <;> simp only [hkind, NodeKind.loop?, Option.some.injEq, reduceCtorEq] at hloop h
  case repeatWhile =>
    subst hloop
    simp only [repeatWhile, returns_bind, returns_dialect] at h
    obtain ⟨d, s₁, ⟨rfl, rfl⟩, h⟩ := h
    by_cases hloops : env.dialect.unboundedLoops
    · simpa [hloops] using h
    · simp [hloops, returns_bind, returns_unsupported] at h
  all_goals
    subst hloop
    exact h

theorem NodeKind.isLoop_of_loop? {k : NodeKind} (h : k.loop? = some loop) : k.isLoop := by
  cases k <;> first | rfl | cases h

/-- The counters of a loop are not bound to the pin of its output. -/
theorem Graph.IsLaidOut.counters_ne {g : Graph} (hg : g.IsLaidOut) (hn : n ∈ g.nodes.values)
    (hloop : n.kind.loop? = some loop) {p : Pin} (hp : n.output? "Output" = some p) :
    ∀ counter ∈ loop.counters, ∀ q, n.output? counter.pin = some q → q.id ≠ p.id := by
  intro counter hcounter q hq hid
  obtain rfl : q = p := hg.pins_inj hn (Node.mem_outputs hq) (Node.mem_outputs hp) hid
  have hname : counter.pin = "Output" :=
    (Node.name_of_output? hq).symm.trans (Node.name_of_output? hp)
  cases hkind : n.kind <;> rw [hkind] at hloop <;> cases hloop <;> simp at hcounter
  case iterate2d => rcases hcounter with rfl | rfl <;> simp at hname
  all_goals
    rw [hcounter] at hname
    simp at hname

end Runs

/-! ## Moments of an emission -/

section Moments

variable {env : EmitEnv} {depth : Nat} {own? : Option Node} {names : List String} {α : Type}
  {x : Demand → EmitM α} {s t : EmitState} {τ : List Moment} {m : Moment} {id : NodeId}
  {ns : List Node} {settings : Settings} {g : Graph}

/-- An emitter of the node runs from the state and returns. -/
def RunsEmitter (env : EmitEnv) (id : NodeId) (s : EmitState) : Prop :=
  ∃ n depth t, n.id = id ∧ (∃ key, env.graph.node? key = some n) ∧
    Returns env (emitKind (evaluateWithin depth) n) s () t

/-- Within an action that succeeds, every emitter that starts returns. -/
theorem Traced.runs {r : Except CompileError α} (h : Traced env depth own? names x s τ r t)
    (hok : r.isOk) (hm : m ∈ τ) (hevent : m.event = .start id) : RunsEmitter env id m.state := by
  induction h with
  | quiet => cases hm
  | bind _ _ ih ih' =>
    rcases List.mem_append.mp hm with hm | hm
    · exact ih rfl hm
    · exact ih' hok hm
  | fail => cases hok
  | output | outer =>
    obtain rfl := List.mem_singleton.mp hm
    cases hevent
  | retype => cases hm
  | @capture _ _ _ _ _ _ _ _ r _ _ ih =>
    have hinner : r.isOk := by cases r <;> exact hok
    rcases List.mem_cons.mp hm with rfl | hm
    · cases hevent
    · rcases List.mem_append.mp hm with hm | hm
      · exact ih hinner hm
      · obtain rfl := List.mem_singleton.mp hm
        cases hevent
  | cross _ _ ih => exact ih hok hm
  | find => cases hm
  | @start depth _ _ _ n _ s u _ r r' _ hstarts hemit _ hends ih =>
    cases r' with
    | error e => cases hok
    | ok v =>
      rw [evaluateWithin_succ] at hends
      obtain ⟨u', hrun, -⟩ := returns_runNode.mp (returns_of_starts hstarts hends)
      rcases List.mem_cons.mp hm with rfl | hm
      · cases hevent
        exact ⟨n, depth, u', rfl, ⟨_, hstarts.node⟩, hrun⟩
      · cases (hemit.ends fun _ _ ↦ rfl).symm.trans hrun
        exact ih rfl hm

theorem NodesTraced.runs (h : NodesTraced env ns s τ (.ok ()) t)
    (hns : ∀ n ∈ ns, ∃ key, env.graph.node? key = some n) (hm : m ∈ τ)
    (hevent : m.event = .start id) : RunsEmitter env id m.state := by
  generalize hr : (.ok () : Except CompileError Unit) = r at h
  induction h with
  | nil => cases hm
  | run hn _ _ ih =>
    obtain ⟨hnode, hns⟩ := List.forall_mem_cons.mp hns
    rcases List.mem_append.mp hm with hm | hm
    · rcases List.mem_cons.mp hm with rfl | hm
      · cases hevent
        exact ⟨_, _, _, rfl, hnode, hn.ends fun _ _ ↦ rfl⟩
      · exact hn.runs rfl hm hevent
    · exact ih hns hm hr
  | fail => cases hr

/-- Every emitter that starts in an emission that succeeds returns. -/
theorem EmissionTraced.runs (hg : g.Consistent) (h : EmissionTraced settings g τ (.ok s)) (hm : m ∈ τ)
    (hevent : m.event = .start id) : RunsEmitter ⟨g, settings⟩ id m.state := by
  have hstored (n : Node) (hn : n ∈ g.nodes.values) : ∃ key, g.node? key = some n :=
    ⟨n.id, hg.mem_nodes_iff.mp hn⟩
  generalize hr : (.ok s : Except CompileError EmitState) = r at h
  cases h with
  | rejected | pixel => cases hr
  | @vertex n _ _ _ _ r _ hterminal hpixel hvertex =>
    cases r with
    | error e => cases hr
    | ok _ =>
      rcases List.mem_append.mp hm with hm | hm
      · refine hpixel.runs (fun n hn ↦ hstored n ?_) hm hevent
        obtain rfl := List.mem_singleton.mp hn
        exact Graph.terminal_mem hterminal
      · exact hvertex.runs (fun n hn ↦ hstored n (List.mem_filter.mp hn).1) hm hevent

variable {allowed : ShaderStage → Node → Prop} [∀ stage, DecidablePred (allowed stage)]

/-- An action ends the same if only those emitters may start that start in its trace. -/
theorem Traced.ends_allowed {r : Except CompileError α} (h : Traced env depth own? names x s τ r t)
    (refusal : CompileError)
    (hallowed : ∀ m ∈ τ, ∀ n, m.event = .start n.id → allowed m.stage n) :
    Ends env (x (evaluateAmong allowed refusal depth)) s r t := by
  induction h with
  | quiet hends => exact hends
  | bind _ _ ih ih' =>
    obtain ⟨hfirst, hrest⟩ := List.forall_mem_append.mp hallowed
    exact ends_bind_ok (ih hfirst) (ih' hrest)
  | fail _ ih => exact ends_bind_error (ih hallowed)
  | output hp => exact returns_bindOutput.mpr ⟨_, hp, rfl, rfl⟩
  | retype hp => exact returns_retypeOutput.mpr ⟨_, hp, rfl⟩
  | outer hp _ ht => exact returns_bindOuter.mpr ⟨_, hp, ht⟩
  | capture _ _ ih =>
    have hinner := (List.forall_mem_append.mp (List.forall_mem_cons.mp hallowed).2).1
    rw [Ends, Lock.run_capture, ih hinner]
    rfl
  | @cross _ _ _ _ _ _ r _ _ ih =>
    rw [Ends, Lock.run_vertexValue, ih hallowed]
    cases r <;> rfl
  | @find depth _ _ _ _ _ _ hnone hends =>
    cases depth with
    | zero => exact hends
    | succ depth =>
      obtain ⟨r, hfound⟩ := ends_evaluateWith_of_not_starts (hnone.resolve_left (Nat.succ_ne_zero depth))
      rw [evaluateWithin_succ] at hends
      cases (hfound _).symm.trans hends
      exact hfound _
  | @start depth _ id pin n _ s _ _ _ _ _ hstarts htraced _ hends ih =>
    obtain ⟨hstart, hinner⟩ := List.forall_mem_cons.mp hallowed
    have hemit : SameRun env (s.beginNode n.id) (emitKind (evaluateAmong allowed refusal depth) n)
        (emitKind (evaluateWithin depth) n) :=
      (ih hinner).trans (htraced.ends fun _ _ ↦ rfl).symm
    have hsame : SameRun env s (evaluateAmong allowed refusal (depth + 1) id pin)
        (evaluateWithin (depth + 1) id pin) := by
      rw [evaluateAmong, evaluateWithin_succ]
      refine sameRun_evaluateWith fun m hstarts' ↦ ?_
      obtain rfl : n = m := Option.some.inj (hstarts.node.symm.trans hstarts'.node)
      rw [SameRun, run_bind_of_returns (returns_currentStage.mpr ⟨rfl, rfl⟩),
        if_pos (show allowed s.stage n from hstart n rfl)]
      exact sameRun_runNode hemit
    exact Eq.trans hsame hends

theorem NodesTraced.ends_allowed {r : Except CompileError Unit} (h : NodesTraced env ns s τ r t)
    (refusal : CompileError)
    (hallowed : ∀ m ∈ τ, ∀ n, m.event = .start n.id → allowed m.stage n) :
    Ends env (ns.forM (runNode (evaluateAmong allowed refusal (emissionDepth env.graph)))) s r t := by
  have hnode {n : Node} {names : List String} {s t : EmitState} {τ : List Moment}
      {r : Except CompileError Unit} (h : Traced env (emissionDepth env.graph) (some n) names
        (fun demand ↦ emitKind demand n) (s.beginNode n.id) τ r t)
      (hallowed : ∀ m ∈ τ, ∀ n, m.event = .start n.id → allowed m.stage n) :
      Ends env (runNode (evaluateAmong allowed refusal (emissionDepth env.graph)) n) s r
        (t.endNode n.id) := by
    rw [Ends, Lock.Lockstep.run_runNode, h.ends_allowed refusal hallowed]
    cases r <;> rfl
  induction h with
  | nil => rfl
  | run hn _ _ ih =>
    obtain ⟨hfirst, hrest⟩ := List.forall_mem_append.mp hallowed
    exact ends_bind_ok (hnode hn (List.forall_mem_cons.mp hfirst).2) (ih hrest)
  | fail hn => exact ends_bind_error (hnode hn (List.forall_mem_cons.mp hallowed).2)

/-- An emission is the same if only those emitters may start that start in its trace. -/
theorem EmissionTraced.emissionAmong_eq (h : EmissionTraced settings g τ (.ok s)) (refusal : CompileError)
    (hallowed : ∀ m ∈ τ, ∀ n, m.event = .start n.id → allowed m.stage n) :
    emissionAmong allowed refusal settings g = .ok s := by
  generalize hr : (.ok s : Except CompileError EmitState) = r at h
  cases h with
  | rejected | pixel => cases hr
  | @vertex n t u _ _ r hvalid hterminal hpixel hvertex =>
    obtain ⟨hfirst, hrest⟩ := List.forall_mem_append.mp hallowed
    cases r with
    | error e => cases hr
    | ok _ =>
      cases hr
      have hrun := hpixel.ends_allowed refusal hfirst
      change Ends _ (runNode _ n >>= fun _ ↦ pure ()) _ _ _ at hrun
      rw [bind_pure] at hrun
      exact emissionBy_eq_ok hvalid hterminal (ends_bind_ok (t := {}) rfl
        (ends_bind_ok hrun (ends_bind_ok rfl (ends_bind_ok (hvertex.ends_allowed refusal hrest) rfl))))

end Moments

/-- A loop with an initial value reads its output as it is declared. In a compilation that succeeds the
emitter of each loop that starts reads the output of the loop at one type, however deep in the body, which is
`void` or the type of the declaration, and is the latter if the loop has an initial value. -/
theorem compile_loopOutputs {settings : Settings} {g : Graph} {a : Artifact} (hg : g.Consistent)
    (hlaidOut : g.IsLaidOut) (h : compile settings g = .ok a) :
    ∃ s, emission settings g = .ok s ∧ a = s.artifact settings ∧
      (∃ τ, EmissionTraced settings g τ (.ok s)) ∧
      ∀ τ, EmissionTraced settings g τ (.ok s) → ∀ m ∈ τ, ∀ n loop, m.event = .start n.id →
        g.node? n.id = some n → n.kind.loop? = some loop →
          ∃ depth t read declared,
            Returns ⟨g, settings⟩ (emitLoop (evaluateWithin depth) n loop) m.state () t ∧
            TypesOutput ⟨g, settings⟩ depth n loop read declared m.state t ∧
            (n.HasInitialValue g → read = declared) ∧ (read = declared ∨ read = .void) := by
  obtain ⟨s, hemission, ha⟩ := compile_eq_ok_iff.mp h
  refine ⟨s, hemission, ha, ?_, fun τ hτ m hm n loop hevent hn hloop ↦ ?_⟩
  · obtain ⟨τ, r, hτ⟩ := exists_emissionTraced settings g
    exact ⟨τ, (hτ.eq_emission.symm.trans hemission) ▸ hτ⟩
  · obtain ⟨n', depth, t, hid, ⟨key, hn'⟩, hrun⟩ := hτ.runs hg hm hevent
    obtain rfl : n' = n := by
      rw [← hg.isKeyed.id_eq hn', hid, hn] at hn'
      exact (Option.some.inj hn').symm
    have hemit := returns_emitLoop_of_loop? hloop hrun
    obtain ⟨read, declared, htypes, hread⟩ := exists_typesOutput hg.isKeyed
      (NodeKind.isLoop_of_loop? hloop)
      (fun p hp ↦ hlaidOut.counters_ne (OrderedMap.mem_values_of_get? hn) hloop hp) hemit
    exact ⟨depth, t, read, declared, hemit, htypes, hread⟩

/-- A loop that reads its output next to a vector and gives back the length. -/
def lengthLoop (initial : List Graph.Wire) : Graph :=
  .numbered
    [.pixelOutput {}, .iterate 0 3, .length, .conditional .less .auto, .uniform "A" .scalar,
      .uniform "B" .scalar, .uniform "C" .vec4]
    ([⟨1, "Output", 0, "Input"⟩, ⟨2, "Output", 1, "Input"⟩, ⟨3, "Output", 2, "Input"⟩,
      ⟨4, "Output", 3, "Input"⟩, ⟨5, "Output", 3, "Reference"⟩, ⟨1, "Output", 3, "CaseTrue"⟩,
      ⟨6, "Output", 3, "CaseFalse"⟩] ++ initial)

/-- The loop that starts from the vector. -/
def vectorLoop : Graph :=
  lengthLoop [⟨6, "Output", 1, "Initial"⟩]

/-- The emitter of the loop starts, and it reads the output as it declares it. -/
theorem compile_loopOutputs_vectorLoop :
    vectorLoop.Consistent ∧ vectorLoop.IsLaidOut ∧ ∃ a s τ m n t depth type,
      compile {} vectorLoop = .ok a ∧ emission {} vectorLoop = .ok s ∧
      EmissionTraced {} vectorLoop τ (.ok s) ∧ m ∈ τ ∧ m.event = .start n.id ∧
      vectorLoop.node? (Graph.nodeNumber 1) = some n ∧ n.HasInitialValue vectorLoop ∧
      TypesOutput ⟨vectorLoop, {}⟩ depth n { counters := [⟨"N", some (0, 3)⟩] } type type m.state t := by
  have hg : vectorLoop.Consistent := (Graph.built_numbered _ _).consistent
  have hlaidOut : vectorLoop.IsLaidOut := by decide +kernel
  obtain ⟨n, hn⟩ : ∃ n, vectorLoop.node? (Graph.nodeNumber 1) = some n :=
    Option.isSome_iff_exists.mp (by decide +kernel)
  have hid := hg.isKeyed.id_eq hn
  have hloop : ∀ n ∈ vectorLoop.node? (Graph.nodeNumber 1),
      n.kind.loop? = some { counters := [⟨"N", some (0, 3)⟩] } := by
    decide +kernel
  obtain ⟨p, hp⟩ : ∃ p, n.input? "Initial" = some p := by
    have hsome : ∀ n ∈ vectorLoop.node? (Graph.nodeNumber 1), (n.input? "Initial").isSome := by
      decide +kernel
    exact Option.isSome_iff_exists.mp (hsome n hn)
  have hdriver : ∀ n ∈ vectorLoop.node? (Graph.nodeNumber 1), ∀ p ∈ n.input? "Initial",
      (vectorLoop.driver? p.id).isSome := by
    decide +kernel
  have hvalue : n.HasInitialValue vectorLoop := ⟨p, hp, .inl (hdriver n hn p hp)⟩
  obtain ⟨a, h⟩ := exists_ok_of_isOk (x := compile {} vectorLoop) (by decide +kernel)
  obtain ⟨s, hs, -, ⟨τ, hτ⟩, htypes⟩ := compile_loopOutputs hg hlaidOut h
  obtain ⟨m, hm, hevent⟩ : ∃ m ∈ τ, m.event = .start n.id := by
    by_contra hnone
    have hsame : emissionAmong (fun _ m ↦ m.id ≠ Graph.nodeNumber 1) .missingTerminal {} vectorLoop =
        .ok s :=
      hτ.emissionAmong_eq .missingTerminal fun m hm k hk hk' ↦ hnone ⟨m, hm, by rw [hk, hk', hid]⟩
    have hrefused : (emissionAmong (fun _ m ↦ m.id ≠ Graph.nodeNumber 1) .missingTerminal {}
        vectorLoop).isOk = false := by
      decide +kernel
    rw [hsame] at hrefused
    cases hrefused
  obtain ⟨depth, t, read, declared, -, hloopTypes, hread, -⟩ :=
    htypes τ hτ m hm n _ hevent (hid ▸ hn) (hloop n hn)
  obtain rfl := hread hvalue
  exact ⟨hg, hlaidOut, a, s, τ, m, n, t, depth, read, h, hs, hτ, hm, hevent, hn, hvalue, hloopTypes⟩

/-- The loop without an initial value. -/
def scalarLoop : Graph :=
  lengthLoop []

/-- The output is assigned to a vector as it is, and declared as a scalar. -/
theorem emission_scalarLoop :
    scalarLoop.Built ∧ ∃ s, emission {} scalarLoop = .ok s ∧
      textLines s.pixel.main.text =
        ["float v0 = 0.0;", "for (float v1 = 0.0; v1 <= 3.0; ++v1)", "\x7b", "\tvec4 v2;",
          "\tif (A < B)", "\t\x7b", "\t\tv2 = v0;", "\t\x7d", "\telse", "\t\x7b", "\t\tv2 = C;",
          "\t\x7d", "\tfloat v3 = length(v2);", "\tv0 = v3;", "\x7d",
          "_gl_FragData_0 = vec4(v0);"] := by
  refine ⟨Graph.built_numbered _ _, exists_emission_of_lines {} scalarLoop .pixel ?_ (by decide +kernel)⟩
  repeat refine forall_isLine_cons (by decide) ?_
  exact List.forall_mem_nil _

end ShaderGraph
