import ShaderGraph.Proofs.Termination.Program
import ShaderGraph.Proofs.Termination.Searches
import ShaderGraph.Proofs.Trace.Composition

/-!
# Bodies of loops

The body of a loop is what feeds its value and its condition otherwise than through what is evaluated in
front of it. What the emitters of the body need is in the body again, or is ahead of it: this holds of
the inputs of all nodes and of what inner loops move in front of themselves. A branch in the body may
move other work as well, since it shares what stands behind the frontier.
-/

namespace ShaderGraph

/-! ## Frontiers

The search for the frontier of a loop visits every output that feeds the body otherwise than through the
frontier, and goes on behind those whose nodes depend on the loop. So the frontier cuts the body off from
all work that does not depend on the loop.
-/

namespace Graph

variable {g : Graph} {target : NodeId} {input : PinId} {o : OutputRef}

/-- An output with which the search is done: it is found, belongs to the loop, or depends on the loop and
the outputs that drive its node are seen. -/
def FrontierSearch.Settles (g : Graph) (target : NodeId) (s : FrontierSearch) (o : OutputRef) : Prop :=
  o ∈ s.found ∨ o.node = target ∨ (g.DependsOn target o.node ∧
    ∀ n p c, g.node? o.node = some n → p ∈ n.inputs → g.driver? p.id = some c → c.source ∈ s.seen)

theorem FrontierSearch.Settles.mono {s t : FrontierSearch} (h : s.Settles g target o)
    (hfound : s.found ⊆ t.found) (hseen : s.seen ⊆ t.seen) : t.Settles g target o :=
  h.imp (fun h ↦ hfound h) (Or.imp_right (And.imp_right fun h n p c hn hp hc ↦ hseen (h n p c hn hp hc)))

/-- A part of a search, which is done with all the outputs that it has met. -/
structure FrontierSearch.Advances (g : Graph) (target : NodeId) (s t : FrontierSearch) : Prop where
  seen : s.seen ⊆ t.seen
  found : s.found ⊆ t.found
  verdicts : t.verdicts.Sound g target
  settled : ∀ o ∈ t.seen, o ∈ s.seen ∨ t.Settles g target o
  budget : ∀ k, Budget g.origins k s.seen → Budget g.origins k t.seen

namespace FrontierSearch.Advances

variable {s t u : FrontierSearch}

theorem refl (h : s.verdicts.Sound g target) : s.Advances g target s :=
  ⟨List.Subset.refl _, List.Subset.refl _, h, fun _ ho ↦ .inl ho, fun _ hk ↦ hk⟩

theorem trans (h : s.Advances g target t) (h' : t.Advances g target u) : s.Advances g target u where
  seen := List.Subset.trans h.seen h'.seen
  found := List.Subset.trans h.found h'.found
  verdicts := h'.verdicts
  settled o ho := by
    rcases h'.settled o ho with ho | ho
    · exact (h.settled o ho).imp_right fun hsettled ↦ hsettled.mono h'.found h'.seen
    · exact .inr ho
  budget k hk := h'.budget k (h.budget k hk)

/-- The search meets an output, and is done with it when it is done with what it meets after it. -/
theorem meet {c : Connection} (hc : g.driver? input = some c) (hnew : c.source ∉ s.seen)
    (h : Advances g target { s with seen := c.source :: s.seen } t)
    (hsettled : t.Settles g target c.source) : s.Advances g target t where
  seen := List.Subset.trans (List.subset_cons_self _ _) h.seen
  found := h.found
  verdicts := h.verdicts
  settled o ho := by
    rcases h.settled o ho with ho | ho
    · rcases List.mem_cons.mp ho with rfl | ho
      · exact .inr hsettled
      · exact .inl ho
    · exact .inr ho
  budget k hk := by
    cases k with
    | zero => exact absurd hk Budget.not_zero
    | succ k => exact (h.budget k (hk.cons (source_mem_origins hc) hnew)).succ

/-- Searches one after another, each of which sees the sources of some connections. -/
theorem forM {α : Type} {search : α → StateM FrontierSearch PUnit} {depth : Nat}
    (drives : α → Connection → Prop) (hsearch : ∀ a s, Budget g.origins depth s.seen → s.verdicts.Sound g target →
      s.Advances g target ((search a).run s).2 ∧
        ∀ c, drives a c → c.source ∈ ((search a).run s).2.seen)
    (as : List α) (hs : Budget g.origins depth s.seen) (hsound : s.verdicts.Sound g target) :
    s.Advances g target ((as.forM search).run s).2 ∧
      ∀ a ∈ as, ∀ c, drives a c → c.source ∈ ((as.forM search).run s).2.seen := by
  induction as generalizing s with
  | nil => exact ⟨.refl hsound, by simp⟩
  | cons a as ih =>
    obtain ⟨hfirst, hdriver⟩ := hsearch a s hs hsound
    obtain ⟨hrest, hdrivers⟩ := ih (hfirst.budget _ hs) hfirst.verdicts
    rw [run_forM_cons]
    refine ⟨hfirst.trans hrest, List.forall_mem_cons.mpr ⟨fun c hc ↦ ?_, hdrivers⟩⟩
    exact hrest.seen (hdriver c hc)

end FrontierSearch.Advances

/-- A search behind an input sees what drives the input, and is done with all that it has met. -/
theorem frontierFrom_advances (depth : Nat) (input : PinId) (s : FrontierSearch)
    (hs : Budget g.origins depth s.seen) (hsound : s.verdicts.Sound g target) :
    s.Advances g target ((g.frontierFrom target depth input).run s).2 ∧
      ∀ c, g.driver? input = some c →
        c.source ∈ ((g.frontierFrom target depth input).run s).2.seen := by
  induction depth generalizing input s with
  | zero => exact absurd hs Budget.not_zero
  | succ depth ih =>
    rw [run_frontierFrom_succ]
    cases hdriver : g.driver? input with
    | none => exact ⟨.refl hsound, by simp⟩
    | some c =>
      -- An output that has been met is seen.
      have hmet {t : FrontierSearch} (h : c.source ∈ t.seen) :
          ∀ c', some c = some c' → c'.source ∈ t.seen := fun c' hc' ↦ Option.some.inj hc' ▸ h
      dsimp only
      by_cases hseen : c.source ∈ s.seen
      · rw [if_pos hseen]
        exact ⟨.refl hsound, hmet hseen⟩
      · rw [if_neg hseen]
        by_cases htarget : c.fromNode = target
        · rw [if_pos htarget]
          exact ⟨.meet hdriver hseen (.refl hsound) (.inr (.inl htarget)), hmet List.mem_cons_self⟩
        · rw [if_neg htarget]
          obtain ⟨hverdicts, hdepends⟩ :=
            dependsOn_sound hsound (g.nodes.size + 2) [] c.fromNode
          cases hrun : (g.dependsOn target (g.nodes.size + 2) [] c.fromNode).run s.verdicts with
          | mk depends verdicts =>
            rw [hrun] at hverdicts hdepends
            -- New verdicts leave the search where it is.
            have hjudged {t : FrontierSearch} (h : FrontierSearch.Advances g target
                  { s with seen := c.source :: s.seen, verdicts := verdicts } t) :
                FrontierSearch.Advances g target { s with seen := c.source :: s.seen } t :=
              ⟨h.seen, h.found, h.verdicts, h.settled, h.budget⟩
            cases depends with
            | false =>
              refine ⟨.meet hdriver hseen ⟨List.Subset.refl _, List.subset_append_left .., hverdicts,
                fun _ ho ↦ .inl ho, fun _ hk ↦ hk⟩ (.inl ?_), hmet List.mem_cons_self⟩
              exact List.mem_append_right _ (List.mem_singleton.mpr rfl)
            | true =>
              dsimp only
              rw [if_pos rfl]
              cases hn : g.node? c.fromNode with
              | none =>
                refine ⟨.meet hdriver hseen (hjudged (.refl hverdicts)) (.inr (.inr ⟨hdepends rfl, ?_⟩)),
                  hmet List.mem_cons_self⟩
                intro n p c' hn'
                cases hn.symm.trans hn'
              | some n =>
                obtain ⟨hadvances, hdrivers⟩ := FrontierSearch.Advances.forM
                  (fun p c ↦ g.driver? p.id = some c) (fun p s ↦ ih p.id s) n.inputs
                  (s := { s with seen := c.source :: s.seen, verdicts := verdicts })
                  (hs.cons (source_mem_origins hdriver) hseen) hverdicts
                refine ⟨.meet hdriver hseen (hjudged hadvances) (.inr (.inr ⟨hdepends rfl, ?_⟩)),
                  hmet (hadvances.seen List.mem_cons_self)⟩
                intro n' p c' hn' hp hc'
                cases hn.symm.trans hn'
                exact hdrivers p hp c' hc'

/-- The search for the frontier of a loop, when it is done. -/
def frontierSearch (g : Graph) (loop : Node) (pins : List String) : FrontierSearch :=
  ((pins.forM fun pin ↦
    match loop.input? pin with
    | none => pure ()
    | some p => g.frontierFrom loop.id g.searchDepth p.id).run {}).2

theorem frontierSearch_advances (g : Graph) (loop : Node) (pins : List String) :
    ({} : FrontierSearch).Advances g loop.id (g.frontierSearch loop pins) ∧
      ∀ pin ∈ pins, ∀ c, (∃ p, loop.input? pin = some p ∧ g.driver? p.id = some c) →
        c.source ∈ (g.frontierSearch loop pins).seen := by
  have hstart : Budget g.origins g.searchDepth [] := .start (by
    rw [length_origins]
    exact Nat.lt_succ_self _)
  refine FrontierSearch.Advances.forM
    (fun pin c ↦ ∃ p, loop.input? pin = some p ∧ g.driver? p.id = some c)
    (fun pin s hs hsound ↦ ?_) pins hstart fun _ h ↦ by cases h
  cases loop.input? pin with
  | none => exact ⟨.refl hsound, by simp⟩
  | some p =>
    obtain ⟨hadvances, hdriver⟩ := frontierFrom_advances g.searchDepth p.id s hs hsound
    refine ⟨hadvances, ?_⟩
    rintro c ⟨q, hq, hc⟩
    cases hq
    exact hdriver c hc

/-- What feeds a loop otherwise than through its frontier belongs to the loop or depends on it. -/
theorem dependsOn_of_feeds {loop : Node} {pins : List String}
    (h : g.FeedsLoop loop pins (· ∉ g.frontier loop pins) o) :
    o ∈ g.frontier loop pins ∨ g.DependsOn loop.id o.node := by
  obtain ⟨hsearch, hdrivers⟩ := g.frontierSearch_advances loop pins
  have hdone {o : OutputRef} (ho : o ∈ (g.frontierSearch loop pins).seen) :
      (g.frontierSearch loop pins).Settles g loop.id o :=
    (hsearch.settled o ho).resolve_left List.not_mem_nil
  have hseen : o ∈ (g.frontierSearch loop pins).seen := by
    induction h with
    | driver hpin hp hc => exact hdrivers _ hpin _ ⟨_, hp, hc⟩
    | through _ hne hinside hn hp hc ih =>
      obtain hfound | htarget | ⟨-, hnext⟩ := hdone ih
      · exact absurd hfound hinside
      · exact absurd htarget hne
      · exact hnext _ _ _ hn hp hc
  obtain hfound | htarget | ⟨hdepends, -⟩ := hdone hseen
  · exact .inl hfound
  · exact .inr (htarget ▸ .refl)
  · exact .inr hdepends

end Graph

/-! ## Bodies -/

namespace Graph

variable {g : Graph} {loop n : Node} {o : OutputRef}

/-- The outputs that are evaluated in front of a loop. -/
inductive IsAhead (g : Graph) (loop : Node) : OutputRef → Prop
  | frontier {o : OutputRef} (h : o ∈ g.frontier loop ["Input", "Condition"]) : IsAhead g loop o
  | initial {p : Pin} {c : Connection} (hp : loop.input? "Initial" = some p)
    (hc : g.driver? p.id = some c) : IsAhead g loop c.source

/-- The outputs that feed the body of a loop otherwise than through its frontier. -/
def InBody (g : Graph) (loop : Node) (o : OutputRef) : Prop :=
  g.FeedsLoop loop ["Input", "Condition"] (· ∉ g.frontier loop ["Input", "Condition"]) o

namespace InBody

/-- What is in the body of a loop and not ahead of it depends on the loop. -/
theorem dependsOn (h : g.InBody loop o) (hahead : ¬ g.IsAhead loop o) : g.DependsOn loop.id o.node :=
  (dependsOn_of_feeds h).resolve_left fun ho ↦ hahead (.frontier ho)

/-- What drives a node of the body is in the body. -/
theorem through (h : g.InBody loop o) (hne : o.node ≠ loop.id) (hahead : ¬ g.IsAhead loop o)
    (hn : g.node? o.node = some n) {p : Pin} {c : Connection} (hp : p ∈ n.inputs)
    (hc : g.driver? p.id = some c) : g.InBody loop c.source :=
  FeedsLoop.through h hne (fun ho ↦ hahead (.frontier ho)) hn hp hc

end InBody

theorem DependsOn.of_driver {target id : NodeId} {p : Pin} {c : Connection}
    (h : g.DependsOn target c.fromNode) (hn : g.node? id = some n)
    (hkind : n.kind.isInterpolator = false) (hp : p ∈ n.inputs) (hc : g.driver? p.id = some c) :
    g.DependsOn target id := by
  refine h.tail ?_
  simp only [Supplies, suppliers, hn, hkind, Bool.false_eq_true, if_false, List.mem_filterMap]
  exact ⟨p, hp, by rw [hc]; rfl⟩

/-- The inputs of a loop are those of its body and the initial value. -/
theorem name_mem_of_isLoop (hlaidOut : n.IsLaidOut) (hloop : n.kind.isLoop) {p : Pin}
    (hp : p ∈ n.inputs) : p.name ∈ ["Input", "Condition"] ∨ p.name = "Initial" := by
  have hname : p.name ∈ n.kind.inputPins.map PinSpec.name :=
    hlaidOut.inputs ▸ List.mem_map_of_mem hp
  cases hkind : n.kind <;> rw [hkind] at hname hloop <;> cases hloop
  all_goals
    simp only [NodeKind.inputPins, NodeKind.loopInputs, PinSpec.required, PinSpec.optional,
      List.map_cons, List.map_nil, List.mem_cons, List.not_mem_nil, or_false] at hname ⊢
    tauto

section Needs

variable (hlaidOut : g.IsLaidOut) (hnode : g.node? loop.id = some loop) (hloop : loop.kind.isLoop)
  (hahead : ∀ o, g.IsAhead loop o → ¬ g.DependsOn loop.id o.node)

include hahead

/-- What branch pins of the body share is in the body, as far as it depends on the loop. -/
theorem InBody.of_shared (hnode : g.node? loop.id = some loop) (hloop : loop.kind.isLoop)
    {input : PinId} (hdriver : ∀ c, g.driver? input = some c → g.InBody loop c.source)
    (h : g.Upstream NodeKind.isBarrier input o) (ho : g.DependsOn loop.id o.node) :
    g.InBody loop o := by
  induction h with
  | driver hc => exact hdriver _ hc
  | @through o m p c _ hm hkind hp hc ih =>
    obtain ⟨hplain, hinterpolator⟩ := Bool.or_eq_false_iff.mp hkind
    have hdepends := DependsOn.of_driver ho hm hinterpolator hp hc
    refine (ih hdepends).through (fun hloopNode ↦ ?_) (fun h ↦ hahead _ h hdepends) hm hp hc
    -- The walk does not go through the loop itself.
    rw [hloopNode, hnode] at hm
    cases hm
    rw [hloop] at hplain
    cases hplain

include hlaidOut in
/-- What an inner loop moves in front of itself is in the body or ahead of it. -/
theorem InBody.of_frontier (hnode : g.node? loop.id = some loop) (hloop : loop.kind.isLoop)
    {inner : Node} {pins : List String} (hinner : g.DependsOn loop.id inner.id)
    (hdriver : ∀ p ∈ inner.inputs, ∀ c, g.driver? p.id = some c → g.InBody loop c.source)
    (h : o ∈ g.frontier inner pins) : g.InBody loop o ∨ g.IsAhead loop o := by
  have hfeeds := feeds_of_mem_frontier h
  clear h
  induction hfeeds with
  | driver _ hp hc => exact .inl (hdriver _ (List.mem_of_find?_eq_some hp) _ hc)
  | @through o m p c _ _ hdepends hm hp hc ih =>
    have hbehind : ¬ g.IsAhead loop o := fun h ↦ hahead _ h (hinner.trans hdepends)
    by_cases hne : o.node = loop.id
    · -- The walk goes on behind the loop, from its own inputs.
      rw [hne, hnode] at hm
      cases hm
      have hpin := (hlaidOut.nodes _ (OrderedMap.mem_values_of_get? hnode)).input?_name hp
      obtain hbody | hinitial := name_mem_of_isLoop
        (hlaidOut.nodes _ (OrderedMap.mem_values_of_get? hnode)) hloop hp
      · exact .inl (.driver hbody hpin hc)
      · exact .inr (.initial (hinitial ▸ hpin) hc)
    · exact .inl ((ih.resolve_right hbehind).through hne hbehind hm hp hc)

include hlaidOut in
/-- What a node of the body needs is in the body or ahead of it, unless it is moved in front of a branch
and does not depend on the loop. -/
theorem InBody.needs (hkeyed : g.IsKeyed) (hnode : g.node? loop.id = some loop)
    (hloop : loop.kind.isLoop) {o' : OutputRef} (h : g.InBody loop o) (hne : o.node ≠ loop.id)
    (hbehind : ¬ g.IsAhead loop o) (hn : g.node? o.node = some n) (hneeds : g.Needs n o') :
    g.InBody loop o' ∨ g.IsAhead loop o' ∨
      (n.kind.isLoop = false ∧ o' ∈ g.hoisted n ∧ ¬ g.DependsOn loop.id o'.node) := by
  have hdriver : ∀ p ∈ n.inputs, ∀ c, g.driver? p.id = some c → g.InBody loop c.source :=
    fun p hp c hc ↦ h.through hne hbehind hn hp hc
  cases hneeds with
  | input hp hc => exact .inl (hdriver _ (List.mem_of_find?_eq_some hp) _ hc)
  | hoisted ho =>
    obtain ⟨-, ⟨hplain, pins, hcommon⟩ | ⟨-, hfrontier⟩⟩ := mem_hoisted ho
    · by_cases hdepends : g.DependsOn loop.id o'.node
      · cases pins with
        | nil => simp [commonOutputs] at hcommon
        | cons pin pins =>
          obtain ⟨p, hp, hshared⟩ := mem_commonOutputs hcommon pin List.mem_cons_self
          exact .inl (.of_shared hahead hnode hloop
            (hdriver p (List.mem_of_find?_eq_some hp)) hshared hdepends)
      · exact .inr (.inr ⟨hplain, ho, hdepends⟩)
    · have hinner : g.DependsOn loop.id n.id := hkeyed.id_eq hn ▸ h.dependsOn hbehind
      exact (InBody.of_frontier hlaidOut hahead hnode hloop hinner hdriver hfrontier).imp_right .inl

end Needs

end Graph

end ShaderGraph
