import ShaderGraph.Proofs.Trace.Scopes

/-!
# Memoization

The bindings of a stage are the memo of its evaluations. An emitter starts when no output of its node is
bound in the stage, and ends, unless it fails, with an output bound in the scope in which it started.
So it starts again only after that scope is closed, and no output is bound twice at a time.
-/

namespace ShaderGraph

open EmitM

theorem suffix_append_cases {α : Type} {l as bs : List α} (h : l <:+ as ++ bs) :
    (∃ l', l' <:+ as ∧ l = l' ++ bs) ∨ l <:+ bs := by
  obtain ⟨before, hbefore⟩ := h
  obtain ⟨l', has, hl⟩ | ⟨rest, -, hbs⟩ := List.append_eq_append_iff.mp hbefore
  · exact .inl ⟨l', ⟨before, has.symm⟩, hl⟩
  · exact .inr ⟨rest, hbs.symm⟩

/-- The emitter starts with no output of its node bound in the stage. -/
def Moment.IsFresh (m : Moment) (g : Graph) (id : NodeId) : Prop :=
  ∃ n, g.node? id = some n ∧ n.outputs ≠ [] ∧
    ∀ p ∈ n.outputs, p.id ∉ (m.state.shader m.stage).boundPins

/-- Where the emitter of a node started earlier in the same stage, the scope that was the innermost one
there has been closed in between. -/
def Memoized (τ : List Moment) : Prop :=
  ∀ (m : Moment) (β : List Moment) (m' : Moment) γ id, m :: (β ++ m' :: γ) <:+ τ →
    m.event = .start id → m'.event = .start id → m'.stage = m.stage → Popped m.stage m.depth β

/-- The emitters that started have bound an output in the scope in which they started, or that scope
is closed. `terminals` have no outputs. -/
def Covered (g : Graph) (terminals : List NodeId) (τ : List Moment) (t : EmitState) : Prop :=
  ∀ m β id, m :: β <:+ τ → m.event = .start id → id ∈ terminals ∨ Popped m.stage m.depth β ∨
    ∃ n p, g.node? id = some n ∧ p ∈ n.outputs ∧
      (t.shader m.stage).table.BoundWithin m.depth p.id

/-- The moments from one state to another, in which the emitters of terminals may start. -/
structure Recorded (g : Graph) (terminals : List NodeId) (s : EmitState) (τ : List Moment)
    (t : EmitState) : Prop where
  follows : Follows s τ t
  fresh : ∀ m ∈ τ, ∀ id, m.event = .start id → id ∈ terminals ∨ m.IsFresh g id
  memoized : Memoized τ
  outputs : ∀ id ∈ terminals, ∀ n, g.node? id = some n → n.outputs = []

section Record

variable {g : Graph} {T T' : List NodeId} {s t u : EmitState} {τ σ : List Moment}

theorem Covered.append (h : Covered g T τ t) (h' : Covered g T' σ u) (hσ : Follows t σ u) :
    Covered g (T ++ T') (τ ++ σ) u := by
  intro m β id hsuffix hevent
  obtain ⟨l, hl, heq⟩ | hsuffix := suffix_append_cases hsuffix
  · cases l with
    | nil =>
      have hm : m :: β <:+ σ := ⟨[], by simpa using heq⟩
      exact (h' m β id hm hevent).imp_left (List.mem_append_right _)
    | cons m' β' =>
      obtain ⟨rfl, rfl⟩ := List.cons.inj heq
      obtain hterminal | hpop | ⟨n, p, hn, hp, hbound⟩ := h m β' id hl hevent
      · exact .inl (List.mem_append_left _ hterminal)
      · exact .inr (.inl (hpop.mono (List.subset_append_left ..)))
      · rcases hσ.boundWithin hbound with hpop | hbound
        · exact .inr (.inl (hpop.mono (List.subset_append_right ..)))
        · exact .inr (.inr ⟨n, p, hn, hp, hbound⟩)
  · exact (h' m β id hsuffix hevent).imp_left (List.mem_append_right _)

/-- Where an emitter starts, no output of its node is bound. -/
theorem Recorded.not_bound (h : Recorded g T s τ t) {m : Moment} {id : NodeId} {n : Node} {p : Pin}
    (hm : m ∈ τ) (hevent : m.event = .start id) (hn : g.node? id = some n) (hp : p ∈ n.outputs) :
    p.id ∉ (m.state.shader m.stage).boundPins := by
  obtain hterminal | ⟨n', hn', -, hunbound⟩ := h.fresh m hm id hevent
  · simp [h.outputs id hterminal n hn] at hp
  · cases hn.symm.trans hn'
    exact hunbound p hp

/-- A binding that is gone where an emitter starts was made in a scope that has been closed. -/
theorem Follows.popped {m : Moment} {β γ : List Moment} {id : NodeId} {depth : Nat} {pin : PinId}
    (h : Follows s (β ++ m :: γ) t) (hevent : m.event = .start id)
    (hbound : (s.shader m.stage).table.BoundWithin depth pin)
    (hunbound : pin ∉ (m.state.shader m.stage).boundPins) : Popped m.stage depth β := by
  obtain ⟨u, hbefore, hafter⟩ := h.split
  refine (hbefore.boundWithin hbound).resolve_right fun hbound ↦ ?_
  have htable := hafter.1 m.stage
  rw [hevent, Event.act, ite_self] at htable
  rw [← htable] at hbound
  exact hunbound hbound.mem

/-- An emitter that starts in the second part of a trace finds its outputs unbound. -/
theorem Recorded.popped (h : Recorded g T s τ t) (h' : Recorded g T' t σ u)
    (hcovered : Covered g T τ t) (hdisjoint : ∀ id ∈ T, id ∉ T') {m m' : Moment} {α β γ : List Moment}
    {id : NodeId} (hτ : m :: α <:+ τ) (hσ : σ = β ++ m' :: γ) (hm : m.event = .start id)
    (hm' : m'.event = .start id) (hstage : m'.stage = m.stage) :
    Popped m.stage m.depth (α ++ β) := by
  have hmem : m' ∈ σ := by simp [hσ]
  obtain hterminal | hpop | ⟨n, p, hn, hp, hbound⟩ := hcovered m α id hτ hm
  · obtain hterminal' | ⟨n, hn, hne, -⟩ := h'.fresh m' hmem id hm'
    · exact absurd hterminal' (hdisjoint id hterminal)
    · exact absurd (h.outputs id hterminal n hn) hne
  · exact hpop.mono (List.subset_append_left ..)
  · rw [← hstage] at hbound ⊢
    exact ((hσ ▸ h'.follows).popped hm' hbound (h'.not_bound hmem hm' hn hp)).mono
      (List.subset_append_right ..)

/-- What an emitter starts without, although it was bound, was bound in a scope that has been closed. -/
theorem Recorded.popped_of_bound (h : Recorded g T s τ t) {b m : Moment} {β γ : List Moment}
    {id : NodeId} {n : Node} {p : Pin} {depth : Nat} (hτ : b :: (β ++ m :: γ) <:+ τ)
    (hm : m.event = .start id) (hn : g.node? id = some n) (hp : p ∈ n.outputs)
    (hbound : (b.state.shader m.stage).table.BoundWithin depth p.id) : Popped m.stage depth β := by
  have hunbound := h.not_bound (hτ.subset (by simp)) hm hn hp
  obtain ⟨α, rfl⟩ := hτ
  obtain ⟨_, -, -, hfollows⟩ := h.follows.split
  exact hfollows.popped hm hbound hunbound

theorem Recorded.append (h : Recorded g T s τ t) (h' : Recorded g T' t σ u)
    (hcovered : (∀ m ∈ σ, ∀ id, m.event ≠ .start id) ∨ Covered g T τ t)
    (hdisjoint : ∀ id ∈ T, id ∉ T') : Recorded g (T ++ T') s (τ ++ σ) u where
  follows := h.follows.append h'.follows
  fresh m hm id hevent := by
    rcases List.mem_append.mp hm with hm | hm
    · exact (h.fresh m hm id hevent).imp_left (List.mem_append_left _)
    · exact (h'.fresh m hm id hevent).imp_left (List.mem_append_right _)
  outputs id hid := (List.mem_append.mp hid).elim (h.outputs id) (h'.outputs id)
  memoized := by
    intro m β m' γ id hsuffix hm hm' hstage
    obtain ⟨l, hl, heq⟩ | hsuffix := suffix_append_cases hsuffix
    · cases l with
      | nil => exact h'.memoized m β m' γ id ⟨[], by simpa using heq⟩ hm hm' hstage
      | cons first α =>
        rw [List.cons_append] at heq
        obtain ⟨rfl, htail⟩ := List.cons.inj heq
        have hlater : ∀ β', σ = β' ++ m' :: γ → Popped m.stage m.depth (α ++ β') := fun β' hσ ↦
          h.popped h' (hcovered.resolve_left fun hnone ↦ hnone m' (by simp [hσ]) id hm') hdisjoint hl
            hσ hm hm' hstage
        -- The second start is in the second part, or both are in the first.
        obtain ⟨β', rfl, hσ⟩ | ⟨γ', rfl, hγ⟩ := List.append_eq_append_iff.mp htail.symm
        · exact hlater β' hσ
        · cases γ' with
          | nil => exact List.append_nil β ▸ (hlater [] (by simpa using hγ.symm)).mono (by simp)
          | cons m'' γ' =>
            rw [List.cons_append] at hγ
            obtain ⟨rfl, -⟩ := List.cons.inj hγ
            exact h.memoized m β m' γ' id hl hm hm' hstage
    · exact h'.memoized m β m' γ id hsuffix hm hm' hstage

/-- A moment at which no emitter starts. -/
theorem Recorded.moment {m : Moment} (h : Follows s [m] t) (he : ∀ id, m.event ≠ .start id) :
    Recorded g [] s [m] t where
  follows := h
  fresh m' hm' id hevent := by
    obtain rfl := List.mem_singleton.mp hm'
    exact absurd hevent (he id)
  memoized m β m' γ id hsuffix := by
    have hlength := hsuffix.length_le
    simp at hlength
  outputs id hid := by cases hid

theorem Recorded.silent (h : Follows s [] t) : Recorded g [] s [] t where
  follows := h
  fresh m hm := by cases hm
  memoized m β m' γ id hsuffix := by simp at hsuffix
  outputs id hid := by cases hid

/-- What is done in the vertex stage. -/
theorem Recorded.cross (h : Recorded g T { s with stage := .vertex } τ t) :
    Recorded g T s τ { t with stage := .pixel } :=
  ⟨h.follows.cross, h.fresh, h.memoized, h.outputs⟩

theorem Covered.congr (h : Covered g T τ t)
    (hu : ∀ stage, (u.shader stage).table = (t.shader stage).table) : Covered g T τ u := by
  intro m β id hsuffix hevent
  rw [hu]
  exact h m β id hsuffix hevent

theorem Covered.of_not_start (h : ∀ m ∈ τ, ∀ id, m.event ≠ .start id) : Covered g T τ t :=
  fun m _ id hsuffix hevent ↦ absurd hevent (h m (hsuffix.subset List.mem_cons_self) id)

/-- The beginning of a trace may be another state with the same bindings. -/
theorem Recorded.congr (h : Recorded g T s τ t)
    (hs : ∀ stage, (s.shader stage).table = (u.shader stage).table) : Recorded g T u τ t :=
  { h with follows := h.follows.congr hs }

/-- More nodes may be terminals. -/
theorem Recorded.weaken (h : Recorded g T s τ t) (hsub : T ⊆ T')
    (houtputs : ∀ id ∈ T', ∀ n, g.node? id = some n → n.outputs = []) : Recorded g T' s τ t :=
  { h with
    fresh := fun m hm id hevent ↦ (h.fresh m hm id hevent).imp_left fun hid ↦ hsub hid
    outputs := houtputs }

end Record

/-! ## Emitters -/

section Emitters

variable {env : EmitEnv} {depth : Nat} {own? : Option Node} {names : List String} {α : Type}
  {x : Demand → EmitM α} {s t : EmitState} {τ : List Moment} {r : Except CompileError α}

/-- An emitter that is running does not start. -/
theorem Traced.idle (hkeyed : env.graph.IsKeyed) (h : Traced env depth own? names x s τ r t) :
    ∀ m ∈ τ, ∀ id, m.event = .start id → id ∉ s.inProgress := by
  induction h with
  | quiet => simp
  | bind hx _ ih ih' =>
    intro m hm id hevent
    rcases List.mem_append.mp hm with hm | hm
    · exact ih m hm id hevent
    · rw [← (hx.keeps hkeyed).inProgress]
      exact ih' m hm id hevent
  | fail _ ih => exact ih
  | output => simp
  | retype => simp
  | outer => simp
  | capture _ _ ih =>
    intro m hm id hevent
    simp only [List.mem_cons, List.mem_append, List.not_mem_nil, or_false] at hm
    obtain rfl | hm | rfl := hm
    · cases hevent
    · rw [← EmitState.inProgress_modifyShader]
      exact ih m hm id hevent
    · cases hevent
  | cross _ _ ih => exact ih
  | find => simp
  | start _ hstarts _ _ _ ih =>
    intro m hm id hevent
    obtain rfl | hm := List.mem_cons.mp hm
    · cases hevent
      rw [hkeyed.id_eq hstarts.node]
      exact hstarts.idle
    · exact fun hid ↦ ih m hm id hevent (List.mem_cons_of_mem _ hid)

/-- The run of an emitter. -/
theorem Recorded.node {g : Graph} {T : List NodeId} {n : Node} {u : EmitState}
    (h : Recorded g [] (s.beginNode n.id) τ u) (hidle : ∀ m ∈ τ, m.event ≠ .start n.id)
    (hfresh : n.id ∈ T ∨ (⟨.start n.id, s.beginNode n.id⟩ : Moment).IsFresh g n.id)
    (houtputs : ∀ id ∈ T, ∀ n, g.node? id = some n → n.outputs = []) :
    Recorded g T s (⟨.start n.id, s.beginNode n.id⟩ :: τ) (u.endNode n.id) where
  follows := h.follows.node
  fresh m hm id hevent := by
    obtain rfl | hm := List.mem_cons.mp hm
    · cases hevent
      exact hfresh
    · exact (h.fresh m hm id hevent).imp_left (by simp)
  memoized m β m' γ id hsuffix hm hm' hstage := by
    obtain heq | hsuffix := List.suffix_cons_iff.mp hsuffix
    · obtain ⟨rfl, rfl⟩ := List.cons.inj heq
      cases hm
      exact absurd hm' (hidle m' (by simp))
    · exact h.memoized m β m' γ id hsuffix hm hm' hstage
  outputs := houtputs

theorem Covered.node {g : Graph} {T : List NodeId} {n : Node} {u : EmitState}
    (h : Covered g [] τ u) (hstart : n.id ∈ T ∨ ∃ n' p, g.node? n.id = some n' ∧ p ∈ n'.outputs ∧
      ((u.endNode n.id).shader s.stage).table.BoundWithin (s.shader s.stage).scopeDepth p.id) :
    Covered g T (⟨.start n.id, s.beginNode n.id⟩ :: τ) (u.endNode n.id) := by
  intro m β id hsuffix hevent
  obtain heq | hsuffix := List.suffix_cons_iff.mp hsuffix
  · obtain ⟨rfl, rfl⟩ := List.cons.inj heq
    cases hevent
    exact hstart.imp_right .inr
  · refine (h.congr (fun stage ↦ ?_) m β id hsuffix hevent).imp_left (by simp)
    cases stage <;> rfl

/-- Every connection starts at an output of a node. -/
def Graph.HasSources (g : Graph) : Prop :=
  ∀ id pin, g.IsSource id pin → ∃ n p, g.node? id = some n ∧ p ∈ n.outputs ∧ p.id = pin

theorem EmitState.Starts.isFresh {g : Graph} {n : Node} {id : NodeId} {pin : PinId}
    (h : s.Starts g id pin n) (hid : n.id = id) (hne : n.outputs ≠ []) :
    (⟨.start n.id, s.beginNode n.id⟩ : Moment).IsFresh g n.id := by
  refine ⟨n, hid ▸ h.node, hne, fun p hp hbound ↦ ?_⟩
  have hsome := StageShader.isSome_binding?_iff.mpr hbound
  change (s.binding? p.id).isSome at hsome
  simp [h.outputs_unbound p hp] at hsome

/-- What is bound at the end is bound in the scopes that were open at the beginning. -/
theorem EmitState.Keeps.boundWithin {pin : PinId} (h : s.Keeps [] t)
    (hbound : (t.binding? pin).isSome) :
    (t.shader s.stage).table.BoundWithin (s.shader s.stage).scopeDepth pin := by
  have hmem := StageShader.isSome_binding?_iff.mp hbound
  rw [h.stage] at hmem
  have hdepth : (t.shader s.stage).table.marks.length = (s.shader s.stage).scopeDepth :=
    congrArg List.length (h.shader s.stage).scopes
  exact hdepth ▸ ScopeTable.boundWithin_of_mem hmem

/-- What happens in an action is recorded. If the action returns, it has bound an output of every
emitter that it has started. -/
theorem Traced.recorded (hkeyed : env.graph.IsKeyed) (hsources : env.graph.HasSources)
    (h : Traced env depth own? names x s τ r t) :
    Recorded env.graph [] s τ t ∧ (r.isOk → Covered env.graph [] τ t) := by
  induction h with
  | quiet _ hwritten => exact ⟨.silent (.written hwritten), fun _ ↦ .of_not_start (by simp)⟩
  | bind _ hf ih ih' =>
    refine ⟨ih.1.append ih'.1 (.inr (ih.2 rfl)) (by simp), fun hok ↦ ?_⟩
    exact (ih.2 rfl).append (ih'.2 hok) hf.follows
  | fail _ ih => exact ⟨ih.1, fun hok ↦ by cases hok⟩
  | output => exact ⟨.moment (.bind ..) (by simp), fun _ ↦ .of_not_start (by simp)⟩
  | retype => exact ⟨.silent (.retype _ _ _), fun _ ↦ .of_not_start (by simp)⟩
  | outer _ hstage ht =>
    exact ⟨.moment (.bindOuter hstage _ _ ht) (by simp), fun _ ↦ .of_not_start (by simp)⟩
  | @capture _ _ _ _ _ s u _ r _ _ ih =>
    have hopen : Recorded env.graph [] s [⟨.openScope, s.beginCapture⟩] s.beginCapture :=
      .moment (.openScope s) (by simp)
    have hclose : Recorded env.graph [] u [⟨.closeScope, u.endCapture s.stage⟩]
        (u.endCapture s.stage) := .moment (.closeScope u s.stage) (by simp)
    have hcovered : Covered env.graph [] [⟨.openScope, s.beginCapture⟩] s.beginCapture :=
      .of_not_start (by simp)
    refine ⟨hopen.append (ih.1.append hclose (.inl (by simp)) (by simp)) (.inr hcovered) (by simp),
      fun hok ↦ ?_⟩
    have hok : r.isOk := by cases r <;> first | rfl | cases hok
    exact hcovered.append ((ih.2 hok).append (.of_not_start (by simp)) hclose.follows)
      (ih.1.follows.append hclose.follows)
  | cross _ _ ih =>
    exact ⟨ih.1.cross, fun hok ↦ (ih.2 hok).congr fun stage ↦ by cases stage <;> rfl⟩
  | find => exact ⟨.silent fun _ ↦ rfl, fun _ ↦ .of_not_start (by simp)⟩
  | @start depth own? id pin n names s u τ r r' hsource hstarts h hnames hends ih =>
    have hid := hkeyed.id_eq hstarts.node
    have hfound := hsources id pin hsource
    have hne : n.outputs ≠ [] := by
      obtain ⟨n', p, hn', hp, -⟩ := hfound
      cases hn'.symm.trans hstarts.node
      exact List.ne_nil_of_mem hp
    have hidle : ∀ m ∈ τ, m.event ≠ .start n.id := fun m hm hevent ↦
      h.idle hkeyed m hm n.id hevent List.mem_cons_self
    refine ⟨ih.1.node hidle (.inr (hstarts.isFresh hid hne)) (by simp), fun hok ↦ ?_⟩
    cases r' with
    | error e => cases hok
    | ok v =>
      obtain ⟨hbound, -⟩ | ⟨_, n', u', hdepth, hn', -, -, -, hrun, hu, hv⟩ := evaluateWithin_cases hends
      · simp [hstarts.unbound] at hbound
      · cases hdepth
        cases hn'.symm.trans hstarts.node
        cases (h.ends fun _ _ ↦ rfl).symm.trans hrun
        have hkeeps : s.Keeps [] (u.endNode n.id) :=
          .node (hid ▸ hstarts.idle) hstarts.outputs_unbound (h.keeps hkeyed)
        obtain ⟨n', p, hn', hp, rfl⟩ := hfound
        exact (ih.2 rfl).node (.inr ⟨n', p, hid ▸ hn', hp, hkeeps.boundWithin (by simp [hv])⟩)

/-- Without kinds whose emitters open scopes, no scope is closed. -/
theorem Traced.not_closeScope (hkinds : ∀ n ∈ env.graph.nodes.values, n.kind.opensScope = false)
    (hown : ∀ n ∈ own?, n ∈ env.graph.nodes.values) (h : Traced env depth own? names x s τ r t) :
    ∀ m ∈ τ, m.event ≠ .closeScope := by
  induction h with
  | quiet => simp
  | bind _ _ ih ih' =>
    intro m hm
    exact (List.mem_append.mp hm).elim (ih hown m) (ih' hown m)
  | fail _ ih => exact ih hown
  | output => simp
  | retype => simp
  | outer => simp
  | capture hkind => simp [hkinds _ (hown _ rfl)] at hkind
  | cross _ _ ih => exact ih (by simp)
  | find => simp
  | start _ hstarts _ _ _ ih =>
    intro m hm
    obtain rfl | hm := List.mem_cons.mp hm
    · simp
    · exact ih (by simpa using Graph.node?_mem hstarts.node) m hm

end Emitters

end ShaderGraph
