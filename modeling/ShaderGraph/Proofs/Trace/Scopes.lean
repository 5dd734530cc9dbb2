import Mathlib.Data.List.Infix
import ShaderGraph.Proofs.Trace.Frame

/-!
# Scopes along a trace

The moments of a trace account for everything that happens to the bindings of both stages. A binding
lasts until the scope in which it was made is closed, and a binding outside of all scopes lasts until
the end.
-/

namespace ShaderGraph

open EmitM

/-- The pins that are bound in a stage, with the scopes in which they are bound. -/
structure ScopeTable where
  /-- The pins that are bound in scopes, the latest first. -/
  pins : List PinId
  marks : List Nat
  /-- The pins that are bound outside of the scopes. -/
  outer : List PinId

def StageShader.table (s : StageShader) : ScopeTable :=
  ⟨s.bindings.map Prod.fst, s.scopes, s.outer.map Prod.fst⟩

/-- All pins that are bound. -/
def ScopeTable.bound (T : ScopeTable) : List PinId :=
  T.pins ++ T.outer

theorem StageShader.bound_table (s : StageShader) : s.table.bound = s.boundPins :=
  rfl

theorem StageShader.length_marks (s : StageShader) : s.table.marks.length = s.scopeDepth :=
  rfl

/-- What an event does to the table of the stage in which it takes place. -/
def Event.act : Event → ScopeTable → ScopeTable
  | .start _, T => T
  | .openScope, T => { T with marks := T.pins.length :: T.marks }
  | .closeScope, T =>
    { T with
      pins := T.pins.drop (T.pins.length - T.marks.headD T.pins.length)
      marks := T.marks.tail }
  | .bind pin, T => { T with pins := pin :: T.pins }
  | .bindOuter pin, T => { T with outer := T.outer ++ [pin] }

namespace ScopeTable

variable {T : ScopeTable} {depth : Nat} {pin : PinId}

/-- The pin is bound outside of the scopes or in one of the `depth` outermost ones: some of the oldest
bindings, among them one of the pin, are older than the marks of all scopes that are deeper. -/
def BoundWithin (T : ScopeTable) (depth : Nat) (pin : PinId) : Prop :=
  pin ∈ T.outer ∨ ∃ older, older <:+ T.pins ∧ pin ∈ older ∧
    ∀ mark ∈ T.marks.take (T.marks.length - depth), older.length ≤ mark

theorem BoundWithin.mem (h : T.BoundWithin depth pin) : pin ∈ T.bound := by
  obtain h | ⟨older, hsuffix, hpin, -⟩ := h
  · exact List.mem_append_right _ h
  · exact List.mem_append_left _ (hsuffix.subset hpin)

/-- What is bound is bound in one of the open scopes or outside of them. -/
theorem boundWithin_of_mem (h : pin ∈ T.bound) : T.BoundWithin T.marks.length pin := by
  rcases List.mem_append.mp h with h | h
  · exact .inr ⟨T.pins, List.suffix_rfl, h, by simp⟩
  · exact .inl h

/-- The binding outlasts the opening of a scope. -/
theorem BoundWithin.openScope (h : T.BoundWithin depth pin) :
    (Event.openScope.act T).BoundWithin depth pin := by
  obtain houter | ⟨older, hsuffix, hpin, hmarks⟩ := h
  · exact .inl houter
  · refine .inr ⟨older, hsuffix, hpin, fun mark hmark ↦ ?_⟩
    change mark ∈ (T.pins.length :: T.marks).take (T.marks.length + 1 - depth) at hmark
    by_cases hdepth : depth ≤ T.marks.length
    · rw [Nat.succ_sub hdepth, List.take_succ_cons] at hmark
      rcases List.mem_cons.mp hmark with rfl | hmark
      · exact hsuffix.length_le
      · exact hmarks mark hmark
    · rw [Nat.sub_eq_zero_of_le (by omega)] at hmark
      cases hmark

/-- A scope that is closed takes the deeper bindings with it only. -/
theorem BoundWithin.closeScope (h : T.BoundWithin depth pin) :
    (Event.closeScope.act T).marks.length < depth ∨
      (Event.closeScope.act T).BoundWithin depth pin := by
  obtain houter | ⟨older, hsuffix, hpin, hmarks⟩ := h
  · exact .inr (.inl houter)
  · obtain ⟨pins, marks, outer⟩ := T
    cases marks with
    | nil => exact .inr (.inr ⟨older, by simpa [Event.act] using hsuffix, hpin, by simp [Event.act]⟩)
    | cons mark marks =>
      by_cases hdepth : depth ≤ marks.length
      · have htake : (mark :: marks).take ((mark :: marks).length - depth) =
            mark :: marks.take (marks.length - depth) := by
          rw [List.length_cons, Nat.succ_sub hdepth, List.take_succ_cons]
        simp only [htake, List.forall_mem_cons] at hmarks
        refine .inr (.inr ⟨older, ?_, hpin, hmarks.2⟩)
        -- What is left is no shorter than the older bindings.
        refine List.suffix_of_suffix_length_le hsuffix (List.drop_suffix _ _) ?_
        have hlength : older.length ≤ pins.length := hsuffix.length_le
        have hmark : older.length ≤ mark := hmarks.1
        change older.length ≤ (pins.drop (pins.length - mark)).length
        rw [List.length_drop]
        omega
      · exact .inl (by simpa [Event.act] using hdepth)

/-- An event keeps a binding, unless it closes the scope in which it was made. -/
theorem BoundWithin.act (h : T.BoundWithin depth pin) (e : Event) :
    (e = .closeScope ∧ (e.act T).marks.length < depth) ∨ (e.act T).BoundWithin depth pin := by
  cases e with
  | start id => exact .inr h
  | openScope => exact .inr h.openScope
  | closeScope => exact h.closeScope.imp_left fun hdepth ↦ ⟨rfl, hdepth⟩
  | bind other =>
    obtain houter | ⟨older, hsuffix, hpin, hmarks⟩ := h
    · exact .inr (.inl houter)
    · exact .inr (.inr ⟨older, hsuffix.trans (List.suffix_cons _ _), hpin, hmarks⟩)
  | bindOuter other => exact .inr (h.imp_left (List.mem_append_left _))

end ScopeTable

/-! ## Traces -/

/-- The moments of a trace change the tables of the stages from those of one state to those of another,
each in the stage in which it takes place. -/
def Follows : EmitState → List Moment → EmitState → Prop
  | s, [], t => ∀ stage, (t.shader stage).table = (s.shader stage).table
  | s, m :: τ, t =>
    (∀ stage, (m.state.shader stage).table =
      if stage = m.stage then m.event.act (s.shader stage).table else (s.shader stage).table) ∧
      Follows m.state τ t

/-- In the course of a trace a scope of the stage is closed, so that fewer than `depth` remain. -/
def Popped (stage : ShaderStage) (depth : Nat) (τ : List Moment) : Prop :=
  ∃ m ∈ τ, m.event = .closeScope ∧ m.stage = stage ∧ m.depth < depth

theorem Popped.mono {stage : ShaderStage} {depth : Nat} {τ σ : List Moment}
    (h : Popped stage depth τ) (hsub : τ ⊆ σ) : Popped stage depth σ := by
  obtain ⟨m, hm, hpop⟩ := h
  exact ⟨m, hsub hm, hpop⟩

namespace Follows

variable {s t u : EmitState} {τ σ : List Moment} {m : Moment}

theorem refl (h : ∀ stage, (t.shader stage).table = (s.shader stage).table) : Follows s [] t :=
  h

theorem congr (h : Follows s τ t) (hs : ∀ stage, (s.shader stage).table = (u.shader stage).table) :
    Follows u τ t := by
  cases τ with
  | nil => exact fun stage ↦ (h stage).trans (hs stage)
  | cons m τ => exact ⟨fun stage ↦ by rw [h.1 stage, hs stage], h.2⟩

theorem congr_right (h : Follows s τ t)
    (ht : ∀ stage, (u.shader stage).table = (t.shader stage).table) : Follows s τ u := by
  induction τ generalizing s with
  | nil => exact fun stage ↦ (ht stage).trans (h stage)
  | cons m τ ih => exact ⟨h.1, ih h.2⟩

theorem append (h : Follows s τ t) (h' : Follows t σ u) : Follows s (τ ++ σ) u := by
  induction τ generalizing s with
  | nil => exact h'.congr h
  | cons m τ ih => exact ⟨h.1, ih h.2⟩

/-- A trace passes through a state between two of its moments. -/
theorem split (h : Follows s (τ ++ σ) t) : ∃ u, Follows s τ u ∧ Follows u σ t := by
  induction τ generalizing s with
  | nil => exact ⟨s, fun _ ↦ rfl, h⟩
  | cons m τ ih =>
    obtain ⟨u, hu, hrest⟩ := ih h.2
    exact ⟨u, ⟨h.1, hu⟩, hrest⟩

/-- Right after an event its stage has what the event has done to some table. -/
theorem act (h : Follows s τ t) (hm : m :: σ <:+ τ) :
    ∃ T, (m.state.shader m.stage).table = m.event.act T := by
  obtain ⟨ρ, rfl⟩ := hm
  obtain ⟨u, -, hafter⟩ := h.split
  have htable := hafter.1 m.stage
  rw [if_pos rfl] at htable
  exact ⟨_, htable⟩

/-- A binding lasts until the scope in which it was made is closed. -/
theorem boundWithin (h : Follows s τ t) {stage : ShaderStage} {depth : Nat} {pin : PinId}
    (hbound : (s.shader stage).table.BoundWithin depth pin) :
    Popped stage depth τ ∨ (t.shader stage).table.BoundWithin depth pin := by
  induction τ generalizing s with
  | nil =>
    rw [← h stage] at hbound
    exact .inr hbound
  | cons m τ ih =>
    obtain ⟨hm, hrest⟩ := h
    have hnext : (m.event = .closeScope ∧ m.stage = stage ∧ m.depth < depth) ∨
        (m.state.shader stage).table.BoundWithin depth pin := by
      by_cases hstage : stage = m.stage
      · subst hstage
        have htable := hm m.stage
        rw [if_pos rfl] at htable
        rcases hbound.act m.event with ⟨hevent, hdepth⟩ | hkept
        · rw [← htable] at hdepth
          exact .inl ⟨hevent, rfl, hdepth⟩
        · exact .inr (htable ▸ hkept)
      · rw [hm stage, if_neg hstage]
        exact .inr hbound
    rcases hnext with hpop | hkept
    · exact .inl ⟨m, List.mem_cons_self, hpop⟩
    · exact (ih hrest hkept).imp_left fun hpopped ↦ hpopped.mono (List.subset_cons_self _ _)

end Follows

namespace Follows

variable {s t u : EmitState} {τ σ : List Moment}

/-- One moment, which changes the stage in which it takes place. -/
theorem moment {e : Event} {stage : ShaderStage} {f : StageShader → StageShader}
    (hstage : s.stage = stage) (hf : (f (s.shader stage)).table = e.act (s.shader stage).table) :
    Follows s [⟨e, s.modifyShader stage f⟩] (s.modifyShader stage f) := by
  refine ⟨fun other ↦ ?_, fun _ ↦ rfl⟩
  have hm : (⟨e, s.modifyShader stage f⟩ : Moment).stage = stage :=
    (EmitState.stage_modifyShader ..).trans hstage
  rw [hm]
  by_cases hother : other = stage
  · subst hother
    rw [if_pos rfl, EmitState.shader_modifyShader, hf]
  · rw [if_neg hother, EmitState.shader_modifyShader_of_ne _ _ hother]

theorem start (id : NodeId) (h : Follows s τ t) (hu : ∀ stage, (u.shader stage) = s.shader stage) :
    Follows u (⟨.start id, s⟩ :: τ) t :=
  ⟨fun stage ↦ by rw [hu, Event.act, ite_self], h⟩

theorem openScope (s : EmitState) : Follows s [⟨.openScope, s.beginCapture⟩] s.beginCapture := by
  refine moment rfl ?_
  simp only [StageShader.table, Event.act, List.length_map]
  rfl

theorem closeScope (s : EmitState) (stage : ShaderStage) :
    Follows s [⟨.closeScope, s.endCapture stage⟩] (s.endCapture stage) := by
  have hclose : Follows { s with stage } [⟨.closeScope, s.endCapture stage⟩]
      (s.endCapture stage) := by
    refine moment rfl ?_
    generalize ({ s with stage } : EmitState).shader stage = a
    have hend : a.closeScope.endCapture.2.table = a.closeScope.table := by
      unfold StageShader.endCapture
      split <;> rfl
    rw [hend]
    unfold StageShader.closeScope
    cases hscopes : a.scopes with
    | nil => simp [StageShader.table, Event.act, hscopes]
    | cons mark marks => simp [StageShader.table, Event.act, hscopes, List.map_drop]
  exact hclose.congr fun other ↦ by cases other <;> rfl

end Follows

namespace Follows

variable {s t : EmitState}

theorem written (h : s.Written t) : Follows s [] t := fun stage ↦ by
  rw [StageShader.table, (h.shader stage).bindings, (h.shader stage).scopes, (h.shader stage).outer]
  rfl

theorem retype (s : EmitState) (pin : PinId) (type : ValueType) :
    Follows s [] (s.retype pin type) := fun stage ↦ by
  by_cases hstage : stage = s.stage
  · subst hstage
    rw [EmitState.retype, EmitState.shader_modifyShader, StageShader.table, StageShader.retype,
      StageShader.map_fst_retypeFirst]
    rfl
  · rw [EmitState.retype, EmitState.shader_modifyShader_of_ne _ _ hstage]

theorem bind (s : EmitState) (pin : PinId) (v : Variable) :
    Follows s [⟨.bind pin, s.bindPin pin v⟩] (s.bindPin pin v) :=
  moment rfl rfl

theorem bindOuter (hstage : s.stage = .pixel) (pin : PinId) (v : Variable)
    (ht : t = s.modifyShader .pixel fun shader ↦ shader.bindOuter pin v) :
    Follows s [⟨.bindOuter pin, t⟩] t := by
  subst ht
  refine moment hstage ?_
  simp [StageShader.table, Event.act, StageShader.bindOuter]

/-- What is done in the vertex stage. -/
theorem cross {τ : List Moment} (h : Follows { s with stage := .vertex } τ t) :
    Follows s τ { t with stage := .pixel } :=
  (h.congr_right fun stage ↦ by cases stage <;> rfl).congr fun stage ↦ by cases stage <;> rfl

/-- The run of an emitter. -/
theorem node {τ : List Moment} {n : Node} (h : Follows (s.beginNode n.id) τ t) :
    Follows s (⟨.start n.id, s.beginNode n.id⟩ :: τ) (t.endNode n.id) :=
  (h.congr_right fun stage ↦ by cases stage <;> rfl).start _ fun stage ↦ by cases stage <;> rfl

end Follows

/-- The moments of an action account for all that it does to the bindings and the scopes. -/
theorem Traced.follows {env : EmitEnv} {depth : Nat} {own? : Option Node} {names : List String}
    {α : Type} {x : Demand → EmitM α} {s t : EmitState} {τ : List Moment} {r : Except CompileError α}
    (h : Traced env depth own? names x s τ r t) : Follows s τ t := by
  induction h with
  | quiet _ hwritten => exact .written hwritten
  | bind _ _ ih ih' => exact ih.append ih'
  | fail _ ih => exact ih
  | output => exact .bind ..
  | retype => exact .retype _ _ _
  | outer _ hstage ht => exact .bindOuter hstage _ _ ht
  | capture _ _ ih => exact (Follows.openScope _).append (ih.append (.closeScope ..))
  | cross _ _ ih => exact ih.cross
  | find => exact .refl fun _ ↦ rfl
  | start _ _ _ _ _ ih => exact ih.node

end ShaderGraph
