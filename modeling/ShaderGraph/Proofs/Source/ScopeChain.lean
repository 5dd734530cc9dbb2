import ShaderGraph.Proofs.Data.Nesting
import ShaderGraph.Source.Stage

/-!
# Chains of scopes

The bindings of a stage and its marks stand for a chain of scopes, each with bindings of its own. A pin
is looked up in the innermost scope that binds it and, if there is none, among the outer bindings. What is
done in a scope is gone when the scope is closed, as long as it leaves the bindings around it alone.
-/

namespace ShaderGraph

section Lists

variable {α : Type} {p : α → Bool} {f : α → α} {as bs : List α}

/-- Changes the first element with a property, if there is one. -/
def modifyFirst (p : α → Bool) (f : α → α) (as : List α) : List α :=
  as.modify (as.findIdx p) f

theorem modifyFirst_cons (a : α) (as : List α) :
    modifyFirst p f (a :: as) = if p a then f a :: as else a :: modifyFirst p f as := by
  rw [modifyFirst, List.findIdx_cons]
  cases p a <;> rfl

theorem length_modifyFirst (as : List α) : (modifyFirst p f as).length = as.length :=
  List.length_modify ..

theorem modifyFirst_append :
    modifyFirst p f (as ++ bs) =
      if as.any p then modifyFirst p f as ++ bs else as ++ modifyFirst p f bs := by
  induction as with
  | nil => simp
  | cons a as ih =>
    rw [List.cons_append, modifyFirst_cons, modifyFirst_cons, ih, List.any_cons]
    cases p a <;> cases as.any p <;> rfl

theorem modifyFirst_of_not_any (h : as.any p = false) : modifyFirst p f as = as := by
  have hnone : as.findIdx p = as.length :=
    List.findIdx_eq_length_of_false (by simpa using h)
  rw [modifyFirst, hnone, List.modify_eq_self le_rfl]

/-- The first element of lists in a row is in the first list that has one. -/
theorem flatten_modifyFirst (lists : List (List α)) :
    (modifyFirst (·.any p) (modifyFirst p f) lists).flatten = modifyFirst p f lists.flatten := by
  induction lists with
  | nil => rfl
  | cons as lists ih =>
    rw [modifyFirst_cons, List.flatten_cons, modifyFirst_append]
    cases as.any p with
    | true => rfl
    | false => exact congrArg (as ++ ·) ih

end Lists

theorem lookup_flatten {κ β : Type} [BEq κ] (k : κ) (lists : List (List (κ × β))) :
    lists.flatten.lookup k = lists.findSome? (·.lookup k) := by
  induction lists with
  | nil => rfl
  | cons es lists ih =>
    rw [List.flatten_cons, List.lookup_append, ih, List.findSome?_cons]
    cases es.lookup k <;> rfl

/-! ## Actions -/

/-- A step in which the bindings of a stage change. -/
inductive ScopeAction
  | openScope
  | closeScope
  | bind (pin : PinId) (v : Variable)
  | bindOuter (pin : PinId) (v : Variable)
  | retype (pin : PinId) (type : ValueType)
deriving DecidableEq, Repr

namespace ScopeAction

def opens : ScopeAction → Bool
  | openScope => true
  | _ => false

def closes : ScopeAction → Bool
  | closeScope => true
  | _ => false

end ScopeAction

def StageShader.perform (s : StageShader) : ScopeAction → StageShader
  | .openScope => s.openScope
  | .closeScope => s.closeScope
  | .bind pin v => s.bind pin v
  | .bindOuter pin v => s.bindOuter pin v
  | .retype pin type => s.retype pin type

def StageShader.performAll (s : StageShader) (actions : List ScopeAction) : StageShader :=
  actions.foldl perform s

/-! ## Chains -/

/-- A stack of scopes. -/
structure ScopeChain where
  /-- Bindings of the innermost scope, the latest first. -/
  current : List Binding := []
  /-- Bindings of the scopes around it, the innermost first. What is bound while no scope is open is in
  the last one. -/
  enclosing : List (List Binding) := []
  /-- Bindings outside of the scopes, the earliest first. -/
  outer : List Binding := []
deriving DecidableEq, Repr

namespace ScopeChain

/-- The latest binding of a pin in the innermost scope that binds it. -/
def scoped? (c : ScopeChain) (pin : PinId) : Option Variable :=
  (c.current :: c.enclosing).findSome? (·.lookup pin)

def find? (c : ScopeChain) (pin : PinId) : Option Variable :=
  (c.scoped? pin).or (c.outer.lookup pin)

/-- The number of open scopes. -/
def depth (c : ScopeChain) : Nat :=
  c.enclosing.length

def binds (pin : PinId) (b : Binding) : Bool :=
  b.1 = pin

/-- Changes the type in the latest binding of a pin in a scope. -/
def retypeScope (pin : PinId) (type : ValueType) : List Binding → List Binding :=
  modifyFirst (binds pin) fun b ↦ (b.1, ⟨b.2.name, type⟩)

/-- Changes the innermost scope that binds the pin. -/
def retype (c : ScopeChain) (pin : PinId) (type : ValueType) : ScopeChain :=
  if c.current.any (binds pin) then { c with current := retypeScope pin type c.current }
  else
    { c with enclosing := modifyFirst (·.any (binds pin)) (retypeScope pin type) c.enclosing }

/-- Drops the innermost scope, if one is open. -/
def closeScope (c : ScopeChain) : ScopeChain :=
  match c.enclosing with
  | [] => c
  | scope :: scopes => { c with current := scope, enclosing := scopes }

def perform (c : ScopeChain) : ScopeAction → ScopeChain
  | .openScope => { c with current := [], enclosing := c.current :: c.enclosing }
  | .closeScope => c.closeScope
  | .bind pin v => { c with current := (pin, v) :: c.current }
  | .bindOuter pin v => { c with outer := c.outer ++ [(pin, v)] }
  | .retype pin type => c.retype pin type

def performAll (c : ScopeChain) (actions : List ScopeAction) : ScopeChain :=
  actions.foldl perform c

/-- All bindings in scopes, the latest first. -/
def bindings (c : ScopeChain) : List Binding :=
  c.current ++ c.enclosing.flatten

/-- The marks of scopes around which there are `n` bindings more. -/
def marks (n : Nat) : List (List Binding) → List Nat
  | [] => []
  | scope :: scopes => (n + (scope :: scopes).flatten.length) :: marks n scopes

variable {c : ScopeChain} {pin : PinId}

theorem lookup_bindings (c : ScopeChain) (pin : PinId) :
    c.bindings.lookup pin = c.scoped? pin :=
  lookup_flatten pin (c.current :: c.enclosing)

theorem any_binds (bs : List Binding) (pin : PinId) :
    bs.any (binds pin) = (bs.lookup pin).isSome := by
  rw [Bool.eq_iff_iff, List.lookup_isSome_iff, List.any_eq_true]
  simp [binds, @eq_comm _ pin]

theorem flatten_retypeScope (pin : PinId) (type : ValueType) (scopes : List (List Binding)) :
    (modifyFirst (·.any (binds pin)) (retypeScope pin type) scopes).flatten =
      retypeScope pin type scopes.flatten :=
  flatten_modifyFirst scopes

theorem length_retypeScope (pin : PinId) (type : ValueType) (scope : List Binding) :
    (retypeScope pin type scope).length = scope.length :=
  length_modifyFirst scope

/-- Retyping keeps the marks, since it keeps the numbers of bindings. -/
theorem marks_retypeScope (n : Nat) (pin : PinId) (type : ValueType) (scopes : List (List Binding)) :
    marks n (modifyFirst (·.any (binds pin)) (retypeScope pin type) scopes) = marks n scopes := by
  induction scopes with
  | nil => rfl
  | cons scope scopes ih =>
    rw [modifyFirst_cons]
    split
    · simp [marks, length_retypeScope]
    · simp [marks, ih, -List.length_flatten, flatten_retypeScope, length_retypeScope]

theorem bindings_retype (c : ScopeChain) (pin : PinId) (type : ValueType) :
    (c.retype pin type).bindings = retypeScope pin type c.bindings := by
  rw [bindings, retype, bindings, retypeScope, modifyFirst_append]
  cases c.current.any (binds pin) with
  | true => rfl
  | false => exact congrArg (c.current ++ ·) (flatten_retypeScope pin type c.enclosing)

theorem marks_retype (n : Nat) (c : ScopeChain) (pin : PinId) (type : ValueType) :
    marks n (c.retype pin type).enclosing = marks n c.enclosing := by
  unfold retype
  split
  · rfl
  · exact marks_retypeScope n pin type c.enclosing

theorem outer_closeScope (c : ScopeChain) : c.closeScope.outer = c.outer := by
  unfold closeScope
  split <;> rfl

theorem outer_retype (c : ScopeChain) (pin : PinId) (type : ValueType) :
    (c.retype pin type).outer = c.outer := by
  unfold retype
  split <;> rfl

theorem depth_perform (c : ScopeChain) (a : ScopeAction) :
    (c.perform a).depth = c.depth + a.opens.toNat - a.closes.toNat := by
  cases a with
  | openScope | bind | bindOuter => rfl
  | closeScope =>
    change c.closeScope.enclosing.length = c.enclosing.length - 1
    unfold closeScope
    cases h : c.enclosing with
    | nil => simp [h]
    | cons scope scopes => rfl
  | retype pin type =>
    change (c.retype pin type).enclosing.length = c.enclosing.length
    unfold retype
    split
    · rfl
    · exact length_modifyFirst c.enclosing

theorem outer_performAll {actions : List ScopeAction} (h : ∀ pin v, .bindOuter pin v ∉ actions)
    (c : ScopeChain) : (c.performAll actions).outer = c.outer := by
  induction actions generalizing c with
  | nil => rfl
  | cons a actions ih =>
    refine (ih (fun pin v hmem ↦ h pin v (List.mem_cons_of_mem a hmem)) _).trans ?_
    cases a with
    | openScope | bind => rfl
    | closeScope => exact c.outer_closeScope
    | bindOuter pin v => exact absurd List.mem_cons_self (h pin v)
    | retype pin type => exact c.outer_retype pin type

end ScopeChain

/-! ## Stages -/

namespace StageShader

open ScopeChain

variable {s : StageShader} {c : ScopeChain} {actions : List ScopeAction}

theorem retypeFirst_eq (pin : PinId) (type : ValueType) (bs : List Binding) :
    retypeFirst pin type bs = retypeScope pin type bs := by
  induction bs with
  | nil => rfl
  | cons b bs ih =>
    rw [retypeFirst, retypeScope, modifyFirst_cons, ih]
    by_cases hb : b.1 = pin
    · simp [binds, hb]
    · simp [binds, hb, retypeScope]

/-- The stage with a chain of scopes on top of its own. -/
def extend (s : StageShader) (c : ScopeChain) : StageShader :=
  { s with
    bindings := c.bindings ++ s.bindings
    scopes := marks s.bindings.length c.enclosing ++ s.scopes
    outer := s.outer ++ c.outer }

theorem extend_empty (s : StageShader) : s.extend {} = s := by
  simp [extend, ScopeChain.bindings, marks]

/-- The action leaves alone what the stage has below the chain. -/
def IsWithin (s : StageShader) (c : ScopeChain) : ScopeAction → Prop
  | .closeScope => c.enclosing ≠ [] ∨ s.scopes = []
  | .retype pin _ => (c.scoped? pin).isSome ∨ s.bindings.lookup pin = none
  | .openScope | .bind _ _ | .bindOuter _ _ => True

theorem openScope_extend (s : StageShader) (c : ScopeChain) :
    (s.extend c).openScope = s.extend (c.perform .openScope) := by
  have hmark : (c.bindings ++ s.bindings).length =
      s.bindings.length + (c.current :: c.enclosing).flatten.length := by
    rw [List.length_append, Nat.add_comm]
    rfl
  simp only [extend, openScope, hmark]
  rfl

theorem closeScope_extend (h : c.enclosing ≠ [] ∨ s.scopes = []) :
    (s.extend c).closeScope = s.extend (c.perform .closeScope) := by
  obtain ⟨current, enclosing, outer⟩ := c
  cases enclosing with
  | nil =>
    have hscopes : s.scopes = [] := h.resolve_left (· rfl)
    simp [extend, closeScope, ScopeChain.perform, ScopeChain.closeScope, marks, hscopes]
  | cons scope scopes =>
    have hdrop : (current ++ (scope :: scopes).flatten ++ s.bindings).length -
        (s.bindings.length + (scope :: scopes).flatten.length) = current.length := by
      simp only [List.length_append]
      omega
    simp only [extend, closeScope, ScopeChain.perform, ScopeChain.closeScope, ScopeChain.bindings,
      marks, List.cons_append, hdrop]
    simp only [List.append_assoc, List.drop_left, List.flatten_cons]

theorem retype_extend {pin : PinId} (type : ValueType)
    (h : (c.scoped? pin).isSome ∨ s.bindings.lookup pin = none) :
    (s.extend c).retype pin type = s.extend (c.perform (.retype pin type)) := by
  have hbindings : retypeScope pin type (c.bindings ++ s.bindings) =
      retypeScope pin type c.bindings ++ s.bindings := by
    rw [retypeScope, modifyFirst_append, any_binds, lookup_bindings]
    split
    · rfl
    · next hnone =>
      have hown : c.bindings.any (binds pin) = false := by
        rw [any_binds, lookup_bindings]
        simpa using hnone
      have hbelow : s.bindings.any (binds pin) = false := by
        rw [any_binds, h.resolve_left hnone]
        rfl
      rw [modifyFirst_of_not_any hown, modifyFirst_of_not_any hbelow]
  simp only [extend, retype, ScopeChain.perform, retypeFirst_eq, hbindings, bindings_retype,
    marks_retype, outer_retype]

/-- Each action does the same to the chain and to the stage that holds it. -/
theorem perform_extend {a : ScopeAction} (h : s.IsWithin c a) :
    (s.extend c).perform a = s.extend (c.perform a) := by
  cases a with
  | openScope => exact s.openScope_extend c
  | closeScope => exact closeScope_extend h
  | bind pin v => rfl
  | bindOuter pin v => exact congrArg (fun outer ↦ { s.extend c with outer }) (List.append_assoc ..)
  | retype pin type => exact retype_extend type h

theorem performAll_extend
    (h : ∀ before a after, actions = before ++ a :: after → s.IsWithin (c.performAll before) a) :
    (s.extend c).performAll actions = s.extend (c.performAll actions) := by
  induction actions using List.reverseRecOn with
  | nil => rfl
  | append_singleton actions a ih =>
    simp only [performAll, ScopeChain.performAll, List.foldl_append, List.foldl_cons, List.foldl_nil]
      at ih ⊢
    rw [ih fun before a' after happend ↦ h before a' (after ++ [a]) (by simp [happend])]
    exact perform_extend (h actions a [] rfl)

/-! ### Blocks -/

/-- The actions open and close scopes of their own, bind nothing outside of the scopes and retype no binding
of the stage in which they start. -/
structure IsConfined (s : StageShader) (actions : List ScopeAction) : Prop where
  balanced : IsBalanced ScopeAction.opens ScopeAction.closes actions
  noOuter : ∀ pin v, .bindOuter pin v ∉ actions
  retypes : ∀ before pin type after, actions = before ++ ScopeAction.retype pin type :: after →
    ((ScopeChain.performAll {} before).scoped? pin).isSome ∨ s.bindings.lookup pin = none

/-- In a scope of their own the actions build a chain on top of what was there. -/
theorem IsConfined.performAll_openScope (h : s.IsConfined actions) :
    s.openScope.performAll actions = s.openScope.extend (ScopeChain.performAll {} actions) := by
  rw [← performAll_extend, extend_empty]
  rintro before a after rfl
  cases a with
  | closeScope =>
    refine .inl (List.ne_nil_of_length_pos ?_)
    have hnested : IsNested ScopeAction.opens ScopeAction.closes (before ++ [ScopeAction.closeScope]) :=
      h.balanced.nested.of_isPrefix ⟨after, by simp⟩
    exact hnested.level_pos depth_perform {} rfl rfl
  | retype pin type => exact h.retypes before pin type after rfl
  | openScope | bind | bindOuter => trivial

/-- A scope that is opened, filled and closed leaves no trace. -/
theorem IsConfined.performAll_eq (h : s.IsConfined actions) :
    s.performAll (ScopeAction.openScope :: actions ++ [ScopeAction.closeScope]) = s := by
  have houter := outer_performAll h.noOuter {}
  have hcount := h.balanced.nested.level_foldl depth_perform {}
  have hclosed : (ScopeChain.performAll {} actions).enclosing = [] := by
    rw [h.balanced.closed] at hcount
    exact List.length_eq_zero_iff.mp (Nat.add_right_cancel hcount)
  calc s.performAll (ScopeAction.openScope :: actions ++ [ScopeAction.closeScope])
      = (s.openScope.performAll actions).closeScope := by
        simp only [performAll, List.cons_append, List.foldl_cons, List.foldl_append, List.foldl_nil]
        rfl
    _ = (s.openScope.extend (ScopeChain.performAll {} actions)).closeScope := by
        rw [h.performAll_openScope]
    _ = s := by
        simp [extend, openScope, closeScope, ScopeChain.bindings, marks, hclosed, houter]

/-! ### Bindings -/

/-- The stage has no bindings and no scopes yet, as a new one. -/
structure IsUnbound (s : StageShader) : Prop where
  bindings : s.bindings = []
  scopes : s.scopes = []
  outer : s.outer = []

theorem isUnbound_new (stage : ShaderStage) : IsUnbound { stage } :=
  ⟨rfl, rfl, rfl⟩

namespace IsUnbound

theorem performAll_extend (h : s.IsUnbound) (actions : List ScopeAction) :
    s.performAll actions = s.extend (ScopeChain.performAll {} actions) := by
  rw [← StageShader.performAll_extend, extend_empty]
  rintro before a after -
  cases a with
  | closeScope => exact .inr h.scopes
  | retype => exact .inr (by rw [h.bindings]; rfl)
  | openScope | bind | bindOuter => trivial

theorem binding?_extend (h : s.IsUnbound) (c : ScopeChain) (pin : PinId) :
    (s.extend c).binding? pin = c.find? pin := by
  change ((c.bindings ++ s.bindings).lookup pin).or ((s.outer ++ c.outer).lookup pin) = _
  rw [h.bindings, h.outer, List.append_nil, List.nil_append, lookup_bindings]
  rfl

end IsUnbound

/-- After any actions a pin is bound in the stage to what the chain of scopes gives for it. A scope that is
opened, filled without regard to what is around it and closed changes the bindings of no pin. -/
theorem binding?_performAll (s : StageShader) :
    (s.IsUnbound → ∀ (actions : List ScopeAction) (pin : PinId),
      (s.performAll actions).binding? pin = (ScopeChain.performAll {} actions).find? pin) ∧
    ∀ block : List ScopeAction, s.IsConfined block → ∀ pin : PinId,
      (s.performAll (.openScope :: block ++ [.closeScope])).binding? pin = s.binding? pin := by
  refine ⟨fun h actions pin ↦ ?_, fun block h pin ↦ ?_⟩
  · rw [h.performAll_extend, h.binding?_extend]
  · rw [h.performAll_eq]

/-- What is done in a scope that binds a pin anew, retypes it from a scope of its own and retypes a pin that is
not bound any more. -/
def shadowing : List ScopeAction :=
  [.bind ⟨⟨0⟩⟩ ⟨"v1", .void⟩, .openScope, .bind ⟨⟨1⟩⟩ ⟨"v2", .vec2⟩, .retype ⟨⟨0⟩⟩ .vec2, .closeScope,
    .retype ⟨⟨1⟩⟩ .vec3]

theorem binding?_performAll_shadowing :
    (IsUnbound { stage := .pixel } ∧
      (performAll { stage := .pixel } (.bind ⟨⟨0⟩⟩ ⟨"v0", .scalar⟩ :: .openScope :: shadowing)).binding?
        ⟨⟨0⟩⟩ =
      (ScopeChain.performAll {} (.bind ⟨⟨0⟩⟩ ⟨"v0", .scalar⟩ :: .openScope :: shadowing)).find? ⟨⟨0⟩⟩) ∧
    IsConfined { stage := .pixel, bindings := [(⟨⟨0⟩⟩, ⟨"v0", .scalar⟩)] } shadowing ∧
    (performAll { stage := .pixel, bindings := [(⟨⟨0⟩⟩, ⟨"v0", .scalar⟩)] }
      (.openScope :: shadowing ++ [.closeScope])).binding? ⟨⟨0⟩⟩ = some ⟨"v0", .scalar⟩ := by
  have hconfined : IsConfined { stage := .pixel, bindings := [(⟨⟨0⟩⟩, ⟨"v0", .scalar⟩)] } shadowing := by
    refine ⟨by decide, by simp [shadowing], fun before pin type after h ↦ ?_⟩
    simp [shadowing, List.cons_eq_append_iff] at h
    obtain ⟨_, rfl, ⟨rfl, ⟨rfl, rfl⟩, -⟩ | ⟨rfl, ⟨rfl, rfl⟩, -⟩⟩ := h
    · exact .inl (by decide)
    · exact .inr (by decide)
  exact ⟨⟨isUnbound_new _, (binding?_performAll _).1 (isUnbound_new _) _ _⟩, hconfined,
    (binding?_performAll _).2 _ hconfined _⟩

end StageShader

end ShaderGraph
