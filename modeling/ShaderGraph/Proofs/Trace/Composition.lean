import ShaderGraph.Proofs.Trace.Actions

/-!
# What emitters are composed of

The emitter of a node is composed of silent actions, demands, bindings of its outputs, and captures. It
demands what drives its inputs, and what is to be evaluated in front of the node if that is a branch or
a loop, and nothing else. All demands are made in the stage in which the emitter runs, but for the one
of an interpolator. What holds of every composed action therefore holds of every other emitter, whether
it succeeds or fails and however its demands are met.
-/

namespace ShaderGraph

open EmitM

namespace Graph

/-- The outputs that the emitter of a node evaluates before it does anything else. -/
def hoisted (g : Graph) (n : Node) : List OutputRef :=
  match n.kind with
  | .conditional .. => g.commonOutputs n ["CaseTrue", "CaseFalse"]
  | .switch cases _ => g.commonOutputs n (cases.map switchCasePin ++ ["Default"])
  | .iterate .. | .iterate2d .. | .sum .. | .repeatWhile => g.frontier n ["Input", "Condition"]
  | _ => []

/-- The outputs that the emitter of a node may demand. -/
inductive Needs (g : Graph) (n : Node) : OutputRef → Prop
  | input {pin : String} {p : Pin} {c : Connection} (hp : n.input? pin = some p)
    (hc : g.driver? p.id = some c) : Needs g n c.source
  | hoisted {o : OutputRef} (ho : o ∈ g.hoisted n) : Needs g n o

variable {g : Graph} {n : Node} {o : OutputRef}

/-- What is evaluated in front of a branch or a loop. -/
theorem mem_hoisted (h : o ∈ g.hoisted n) :
    n.kind.opensScope ∧ ((n.kind.isLoop = false ∧ ∃ pins, o ∈ g.commonOutputs n pins) ∨
      (n.kind.isLoop ∧ o ∈ g.frontier n ["Input", "Condition"])) := by
  unfold hoisted at h
  cases hkind : n.kind <;> rw [hkind] at h <;>
    first
    | exact absurd h List.not_mem_nil
    | exact ⟨rfl, .inl ⟨rfl, _, h⟩⟩
    | exact ⟨rfl, .inr ⟨rfl, h⟩⟩

theorem hoisted_of_isLoop (h : n.kind.isLoop) : g.hoisted n = g.frontier n ["Input", "Condition"] := by
  unfold hoisted
  cases hkind : n.kind <;> rw [hkind] at h <;> first | rfl | cases h

/-- A node needs what is upstream of its inputs. -/
theorem Needs.upstream (h : g.Needs n o) :
    ∃ p ∈ n.inputs, g.Upstream NodeKind.isInterpolator p.id o := by
  cases h with
  | input hp hc => exact ⟨_, List.mem_of_find?_eq_some hp, .driver hc⟩
  | hoisted ho =>
    obtain ⟨-, ⟨-, pins, ho⟩ | ⟨-, ho⟩⟩ := mem_hoisted ho
    · exact upstream_of_hoisted (.inl ho)
    · exact upstream_of_hoisted (.inr ho)

theorem Needs.isSource (h : g.Needs n o) : g.IsSource o.node o.pin := by
  obtain ⟨p, -, ho⟩ := h.upstream
  exact .of_upstream ho

end Graph

/-- An action for a node `n` that is composed of silent actions, demands of what the node needs, and
captures. If the emitter of `n` acts, which `own?` says, the action binds outputs of `n` as well; `names`
are those that it may bind, one after another. -/
inductive Composed (env : EmitEnv) (n : Node) (own? : Option Node) :
    List String → {α : Type} → (Demand → EmitM α) → Prop
  | silent {α : Type} {x : EmitM α} (h : Silent env x) : Composed env n own? [] fun _ ↦ x
  | read {names : List String} {α : Type} {f : EmitEnv → Demand → EmitM α}
    (h : Composed env n own? names (f env)) :
    Composed env n own? names fun demand ↦ read >>= fun e ↦ f e demand
  | bind {names names' : List String} {α β : Type} {x : Demand → EmitM α}
    {f : α → Demand → EmitM β} (hx : Composed env n own? names x)
    (hf : ∀ a, Composed env n own? names' (f a)) :
    Composed env n own? (names ++ names') fun demand ↦ x demand >>= fun a ↦ f a demand
  | demand {o : OutputRef} (h : env.graph.Needs n o) :
    Composed env n own? [] fun demand ↦ demand o.node o.pin
  | output {pin : String} {v : Variable} (hown : own? = some n) :
    Composed env n own? [pin] fun _ ↦ bindOutput n pin v
  | retype {pin : String} {t : ValueType} (hown : own? = some n) :
    Composed env n own? [] fun _ ↦ retypeOutput n pin t
  | capture {names : List String} {α : Type} {x : Demand → EmitM α} (hown : own? = some n)
    (hkind : n.kind.opensScope) (h : Composed env n own? names x) :
    Composed env n own? names fun demand ↦ capture (x demand)
  | weaken {names names' : List String} {α : Type} {x : Demand → EmitM α}
    (h : Composed env n own? names x) (hsub : names.Sublist names') :
    Composed env n own? names' x

namespace Composed

variable {env : EmitEnv} {α β : Type} {n : Node} {own? : Option Node} {names names' : List String}

/-- A composed action has a trace from every state. -/
theorem traceable {depth : Nat} (hdemand : Demandable env depth) {x : Demand → EmitM α}
    (h : Composed env n own? names x) : Traceable env depth own? names x := by
  induction h with
  | silent h => exact .silent h
  | read _ ih => exact fun s ↦ .next (.quiet (returns_read.mpr ⟨rfl, rfl⟩) (.refl s)) (ih s)
  | bind _ _ ih ih' => exact ih.bind ih'
  | demand h => exact hdemand own? _ _ h.isSource
  | output hown =>
    subst hown
    exact .bindOutput _ _
  | retype hown =>
    subst hown
    exact .retypeOutput _ _
  | capture hown hkind _ ih =>
    subst hown
    exact ih.capture hkind
  | weaken _ hsub ih => exact ih.weaken hsub

/-! ## Composition -/

/-- A silent action where outputs may be bound. -/
theorem quiet {x : EmitM α} (h : Silent env x) : Composed env n own? names fun _ ↦ x :=
  .weaken (.silent h) (List.nil_sublist _)

/-- An action that binds nothing, and one that goes on with its result. -/
theorem andThen {x : Demand → EmitM α} {f : α → Demand → EmitM β}
    (hx : Composed env n own? [] x) (hf : ∀ a, Composed env n own? names (f a)) :
    Composed env n own? names fun demand ↦ x demand >>= fun a ↦ f a demand :=
  hx.bind hf

/-- An action after which nothing is bound. -/
theorem followed {x : Demand → EmitM α} {f : α → Demand → EmitM β}
    (hx : Composed env n own? names x) (hf : ∀ a, Composed env n own? [] (f a)) :
    Composed env n own? names fun demand ↦ x demand >>= fun a ↦ f a demand :=
  (hx.bind hf).weaken (by rw [List.append_nil])

theorem after {x : EmitM α} {f : α → Demand → EmitM β} (hx : Silent env x)
    (hf : ∀ a, Composed env n own? names (f a)) :
    Composed env n own? names fun demand ↦ x >>= fun a ↦ f a demand :=
  (Composed.silent hx).andThen hf

theorem either {c : Prop} [Decidable c] {x y : Demand → EmitM α}
    (hx : Composed env n own? names x) (hy : Composed env n own? names y) :
    Composed env n own? names fun demand ↦ if c then x demand else y demand := by
  by_cases hc : c
  · simpa only [if_pos hc] using hx
  · simpa only [if_neg hc] using hy

theorem guard {c : Prop} [Decidable c] {x : EmitM Unit} {y : Unit → Demand → EmitM α}
    (hx : Silent env x) (hy : ∀ r, Composed env n own? names (y r)) :
    Composed env n own? names fun demand ↦
      if c then x >>= fun r ↦ y r demand else y () demand :=
  either (after hx hy) (hy ())

theorem either_andThen {c : Prop} [Decidable c] {x y : Demand → EmitM α} {f : α → Demand → EmitM β}
    (hx : Composed env n own? [] x) (hy : Composed env n own? [] y)
    (hf : ∀ a, Composed env n own? names (f a)) :
    Composed env n own? names fun demand ↦
      if c then x demand >>= fun a ↦ f a demand else y demand >>= fun a ↦ f a demand :=
  either (hx.andThen hf) (hy.andThen hf)

theorem mapM (f : α → Demand → EmitM β) (bound : α → List String) (as : List α)
    (hf : ∀ a ∈ as, Composed env n own? (bound a) (f a)) :
    Composed env n own? (as.flatMap bound) fun demand ↦ as.mapM fun a ↦ f a demand := by
  induction as with
  | nil => exact .silent (.pure [])
  | cons a as ih =>
    have hrest := ih fun a' ha' ↦ hf a' (List.mem_cons_of_mem a ha')
    simp only [List.mapM_cons]
    refine (hf a List.mem_cons_self).bind fun b ↦ ?_
    exact hrest.followed fun bs ↦ .silent (.pure (b :: bs))

/-- Actions of a list that bind nothing. -/
theorem mapM_reads (f : α → Demand → EmitM β) (as : List α)
    (hf : ∀ a ∈ as, Composed env n own? [] (f a)) :
    Composed env n own? [] fun demand ↦ as.mapM fun a ↦ f a demand :=
  (mapM f (fun _ ↦ []) as hf).weaken (by simp)

theorem forIn (f : α → PUnit → Demand → EmitM (ForInStep PUnit)) (g : α → Demand → EmitM PUnit)
    (bound : α → List String) (as : List α)
    (hfg : ∀ a demand, f a ⟨⟩ demand = do g a demand; pure (.yield ⟨⟩))
    (hg : ∀ a ∈ as, Composed env n own? (bound a) (g a)) :
    Composed env n own? (as.flatMap bound) fun demand ↦
      forIn as ⟨⟩ fun a u ↦ f a u demand := by
  obtain rfl : f = fun a _ demand ↦ g a demand >>= fun _ ↦ pure (.yield ⟨⟩) := by
    funext a u demand
    exact hfg a demand
  induction as with
  | nil => exact .silent (.pure _)
  | cons a as ih =>
    have hrest := ih fun a' ha' ↦ hg a' (List.mem_cons_of_mem a ha')
    simp only [List.forIn_cons, bind_assoc, pure_bind]
    exact (hg a List.mem_cons_self).bind fun _ ↦ hrest

/-! ## Outputs -/

theorem bindOutput (pin : String) (v : Variable) :
    Composed env n (some n) [pin] fun _ ↦ bindOutput n pin v :=
  .output rfl

theorem emitOutput (pin : String) (t : ValueType) :
    Composed env n (some n) [pin] fun _ ↦ emitOutput n pin t :=
  after .freshName fun name ↦ bindOutput pin ⟨name, t⟩

theorem assignOutput (t : ValueType) (expr : String) :
    Composed env n (some n) ["Output"] fun _ ↦ assignOutput n t expr :=
  (emitOutput "Output" t).bind fun output ↦ .silent (.assign output expr)

theorem forwardOutput (v : Variable) :
    Composed env n (some n) ["Output"] fun _ ↦ forwardOutput n v :=
  (bindOutput "Output" v).bind fun _ ↦ .silent (.pure ())

/-! ## Inputs -/

theorem inputValue? (pin : String) :
    Composed env n own? [] fun demand ↦ inputValue? demand n pin := by
  unfold EmitM.inputValue?
  cases hp : n.input? pin with
  | none => exact .silent (.throw _)
  | some p =>
    refine .read ?_
    cases hc : env.graph.driver? p.id with
    | some c => exact (Composed.demand (.input hp hc)).andThen fun v ↦ .silent (.pure _)
    | none =>
      cases p.default? with
      | some l => exact after .dialect fun d ↦ .silent (.pure _)
      | none => exact .silent (.either (.pure _) (.throw _))

theorem requireInput (pin : String) :
    Composed env n own? [] fun demand ↦ requireInput demand n pin := by
  refine (inputValue? pin).andThen fun value? ↦ ?_
  cases value? with
  | some v => exact .silent (.pure v)
  | none => exact .silent (.throw _)

theorem vectorInput (pin : String) :
    Composed env n own? [] fun demand ↦ vectorInput demand n pin :=
  (requireInput pin).andThen fun v ↦ .silent (.either (.pure v) (.throw _))

theorem scalarInput (pin : String) :
    Composed env n own? [] fun demand ↦ scalarInput demand n pin :=
  (requireInput pin).andThen fun v ↦ .silent (.either (.pure v) (.throw _))

theorem matrixInput (pin : String) :
    Composed env n own? [] fun demand ↦ matrixInput demand n pin :=
  (requireInput pin).andThen fun v ↦ .silent (.either (.pure v) (.throw _))

theorem textureInput (pin : String) :
    Composed env n own? [] fun demand ↦ textureInput demand n pin :=
  (requireInput pin).andThen fun v ↦ .silent (.either (.pure v) (.throw _))

theorem scalarOperand (pin : String) :
    Composed env n own? [] fun demand ↦ scalarOperand demand n pin :=
  (requireInput pin).andThen fun v ↦ .silent (.cast v .scalar)

theorem hoist {outputs : List OutputRef} (h : ∀ o ∈ outputs, env.graph.Needs n o) :
    Composed env n own? [] fun demand ↦ hoist demand outputs := by
  unfold EmitM.hoist
  induction outputs with
  | nil => exact .silent (.pure ())
  | cons o os ih =>
    change Composed env n own? [] fun demand ↦
      (demand o.node o.pin >>= fun _ ↦ pure ()) >>= fun _ ↦ EmitM.hoist demand os
    simp only [bind_assoc, pure_bind]
    exact (Composed.demand (h o List.mem_cons_self)).andThen fun _ ↦
      ih fun o' ho' ↦ h o' (List.mem_cons_of_mem o ho')

end Composed

namespace Traceable

variable {env : EmitEnv} {depth : Nat} {own? : Option Node} (hdemand : Demandable env depth)

include hdemand

theorem inputValue? (n : Node) (pin : String) :
    Traceable env depth own? [] fun demand ↦ inputValue? demand n pin :=
  (Composed.inputValue? pin).traceable hdemand

theorem requireInput (n : Node) (pin : String) :
    Traceable env depth own? [] fun demand ↦ requireInput demand n pin :=
  (Composed.requireInput pin).traceable hdemand

end Traceable

end ShaderGraph
