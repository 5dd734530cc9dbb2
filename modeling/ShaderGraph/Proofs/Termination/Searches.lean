import Mathlib.Data.List.Perm.Subperm
import Mathlib.Logic.Function.Iterate
import ShaderGraph.Graph.Validation
import ShaderGraph.Proofs.Graph.Upstream

/-!
# The searches of a graph end

The recursions of the searches carry a bound on their depth. A search is taken apart here into the
step that one call makes and the function that stands for the calls inside of it, so that the bounded
search is an iterate of the step. A search keeps a list of what it has met: the sources that it has
found or seen, or the nodes on its path. Every call inside of another one is made with one more member
of a finite set in that list, so calls are never nested deeper than the set has members, and what
stands at the bottom of the iterate does not matter.
-/

namespace ShaderGraph

/-! ## Recursions and budgets -/

section Recursions

variable {F : Type} {step : F → F}

theorem eq_iterate {f : Nat → F} (h : ∀ d, f (d + 1) = step (f d)) (d : Nat) :
    f d = step^[d] (f 0) := by
  induction d with
  | zero => rfl
  | succ d ih => rw [h, ih, Function.iterate_succ_apply']

/-- If a step makes functions agree on calls of depth `k + 1` that agree on those of depth `k`, then
any two iterates agree on the calls that are less deep than they are long. -/
theorem iterate_agree {R : Nat → F → F → Prop} (zero : ∀ f g, R 0 f g)
    (succ : ∀ k f g, R k f g → R (k + 1) (step f) (step g)) {k d d' : Nat} (hd : k ≤ d)
    (hd' : k ≤ d') (f g : F) : R k (step^[d] f) (step^[d'] g) := by
  induction k generalizing d d' with
  | zero => exact zero _ _
  | succ k ih =>
    obtain ⟨d, rfl⟩ := Nat.exists_eq_add_of_lt hd
    obtain ⟨d', rfl⟩ := Nat.exists_eq_add_of_lt hd'
    rw [Function.iterate_succ_apply', Function.iterate_succ_apply']
    exact succ k _ _ (ih (Nat.le_add_right k d) (Nat.le_add_right k d'))

/-- The members of a list that have been met are different ones, and fewer than `k` are left. -/
structure Budget {α : Type} (all : List α) (k : Nat) (met : List α) : Prop where
  nodup : met.Nodup
  subset : met ⊆ all
  bound : all.length < met.length + k

namespace Budget

variable {α : Type} {all met met' : List α} {k : Nat} {a : α}

theorem start (h : all.length < k) : Budget all k [] :=
  ⟨.nil, List.nil_subset _, by simpa using h⟩

theorem not_zero : ¬ Budget all 0 met := fun h ↦
  absurd (h.nodup.subperm h.subset).length_le (Nat.not_le_of_lt h.bound)

theorem cons (h : Budget all (k + 1) met) (ha : a ∈ all) (hnew : a ∉ met) :
    Budget all k (a :: met) where
  nodup := List.nodup_cons.mpr ⟨hnew, h.nodup⟩
  subset := List.cons_subset.mpr ⟨ha, h.subset⟩
  bound := by
    have := h.bound
    simp only [List.length_cons]
    omega

theorem perm (h : Budget all k met) (hperm : met.Perm met') : Budget all k met' where
  nodup := hperm.nodup h.nodup
  subset := fun a ha ↦ h.subset (hperm.mem_iff.mpr ha)
  bound := by rw [← hperm.length_eq]; exact h.bound

theorem concat (h : Budget all (k + 1) met) (ha : a ∈ all) (hnew : a ∉ met) :
    Budget all k (met ++ [a]) :=
  (h.cons ha hnew).perm (List.perm_append_singleton a met).symm

theorem succ (h : Budget all k met) : Budget all (k + 1) met :=
  ⟨h.nodup, h.subset, Nat.lt_succ_of_lt h.bound⟩

end Budget

theorem forM_congr {α : Type} {m : Type → Type} [Monad m] {f g : α → m PUnit} {as : List α}
    (h : ∀ a ∈ as, f a = g a) : as.forM f = as.forM g := by
  induction as with
  | nil => rfl
  | cons a as ih =>
    change (f a >>= fun _ ↦ as.forM f) = (g a >>= fun _ ↦ as.forM g)
    rw [h a List.mem_cons_self, ih fun b hb ↦ h b (List.mem_cons_of_mem a hb)]

theorem run_forM_cons {σ α : Type} {f : α → StateM σ PUnit} {a : α} {as : List α} {s : σ} :
    ((a :: as).forM f).run s = (as.forM f).run ((f a).run s).2 :=
  rfl

end Recursions

namespace Graph

variable {g : Graph} {input : PinId} {c : Connection} {id : NodeId} {n : Node}

/-- What the connections lead from. -/
def origins (g : Graph) : List OutputRef :=
  g.connections.values.map Connection.source

theorem length_origins : g.origins.length = g.connections.size := by
  simp [origins, OrderedMap.values, OrderedMap.size]

theorem source_mem_origins (h : g.driver? input = some c) : c.source ∈ g.origins := by
  unfold driver? at h
  obtain ⟨id, -, hc⟩ := Option.bind_eq_some_iff.mp h
  exact List.mem_map_of_mem (OrderedMap.mem_values_of_get? hc)

theorem mem_keys (h : g.node? id = some n) : id ∈ g.nodes.keys :=
  List.mem_map_of_mem (entry_mem_of_lookup h)

theorem length_keys : g.nodes.keys.length = g.nodes.size := by
  simp [OrderedMap.keys, OrderedMap.size]

/-! ## Sources -/

/-- One call of the search for sources. -/
def sourcesStep (g : Graph) (search : List OutputRef → PinId → List OutputRef)
    (found : List OutputRef) (input : PinId) : List OutputRef :=
  match g.driver? input with
  | none => found
  | some c =>
    if c.source ∈ found then found
    else
      match g.node? c.fromNode with
      | none => found ++ [c.source]
      | some n =>
        if n.kind.isBarrier then found ++ [c.source]
        else n.inputs.foldl (fun found p ↦ search found p.id) (found ++ [c.source])

theorem sourcesFrom_eq_iterate (d : Nat) :
    g.sourcesFrom d = g.sourcesStep^[d] (g.sourcesFrom 0) :=
  eq_iterate (fun d ↦ by funext found input; rw [sourcesFrom]; rfl) d

/-- Searches that agree as long as fewer than `k` sources are left. -/
def SourcesAgree (g : Graph) (k : Nat) (f f' : List OutputRef → PinId → List OutputRef) : Prop :=
  ∀ found input, Budget g.origins k found →
    f found input = f' found input ∧ Budget g.origins k (f found input)

theorem sourcesStep_agree {k : Nat} {f f' : List OutputRef → PinId → List OutputRef}
    (h : g.SourcesAgree k f f') : g.SourcesAgree (k + 1) (g.sourcesStep f) (g.sourcesStep f') := by
  intro found input hfound
  -- The inputs of a node are searched one after another.
  have hfold (ps : List Pin) (found : List OutputRef) (hfound : Budget g.origins k found) :
      ps.foldl (fun found p ↦ f found p.id) found = ps.foldl (fun found p ↦ f' found p.id) found ∧
        Budget g.origins k (ps.foldl (fun found p ↦ f found p.id) found) := by
    induction ps generalizing found with
    | nil => exact ⟨rfl, hfound⟩
    | cons p ps ih =>
      obtain ⟨heq, hnext⟩ := h found p.id hfound
      simp only [List.foldl_cons, ← heq]
      exact ih _ hnext
  unfold sourcesStep
  cases hdriver : g.driver? input with
  | none => exact ⟨rfl, hfound⟩
  | some c =>
    dsimp only
    by_cases hmet : c.source ∈ found
    · simp only [if_pos hmet]
      exact ⟨trivial, hfound⟩
    · simp only [if_neg hmet]
      have hnext := hfound.concat (source_mem_origins hdriver) hmet
      cases g.node? c.fromNode with
      | none => exact ⟨rfl, hnext.succ⟩
      | some n =>
        dsimp only
        split
        · exact ⟨rfl, hnext.succ⟩
        · exact ⟨(hfold _ _ hnext).1, (hfold _ _ hnext).2.succ⟩

/-- The sources of an input do not depend on what would stand for calls at a depth of the number of
connections. -/
theorem sourcesStep_iterate {d d' : Nat} (hd : g.connections.size < d)
    (hd' : g.connections.size < d') (f f' : List OutputRef → PinId → List OutputRef)
    (input : PinId) : g.sourcesStep^[d] f [] input = g.sourcesStep^[d'] f' [] input :=
  (iterate_agree (R := g.SourcesAgree) (fun _ _ _ _ h ↦ absurd h Budget.not_zero)
    (fun _ _ _ h ↦ sourcesStep_agree h) hd hd' f f' [] input
    (.start (by rw [length_origins]; exact Nat.lt_succ_self _))).1

theorem sourcesFrom_eq_of_lt {d d' : Nat} (hd : g.connections.size < d)
    (hd' : g.connections.size < d') : g.sourcesFrom d [] input = g.sourcesFrom d' [] input := by
  rw [sourcesFrom_eq_iterate d, sourcesFrom_eq_iterate d']
  exact sourcesStep_iterate hd hd' ..

/-! ## Dependence -/

/-- One call of the search for a dependence. -/
def dependsOnStep (g : Graph) (target : NodeId) (search : List NodeId → NodeId → StateM Verdicts Bool)
    (path : List NodeId) (id : NodeId) : StateM Verdicts Bool := do
  if id = target then return true
  if let some verdict := (← get).lookup id then return verdict
  if id ∈ path then return false
  let verdict ←
    match g.node? id with
    | none => pure false
    | some n =>
      if n.kind.isInterpolator then pure false
      else
        n.inputs.anyM fun p ↦
          match g.driver? p.id with
          | none => pure false
          | some c => search (id :: path) c.fromNode
  modify ((id, verdict) :: ·)
  return verdict

theorem dependsOn_eq_iterate (target : NodeId) (d : Nat) :
    g.dependsOn target d = (g.dependsOnStep target)^[d] (g.dependsOn target 0) :=
  eq_iterate (fun d ↦ by funext path id; rw [dependsOn]; rfl) d

/-- Searches that agree as long as fewer than `k` nodes are off the path. -/
def DependenceAgrees (g : Graph) (k : Nat) (f f' : List NodeId → NodeId → StateM Verdicts Bool) :
    Prop :=
  ∀ path id, Budget g.nodes.keys k path → f path id = f' path id

theorem dependsOnStep_agree {target : NodeId} {k : Nat}
    {f f' : List NodeId → NodeId → StateM Verdicts Bool}
    (h : g.DependenceAgrees k f f') :
    g.DependenceAgrees (k + 1) (g.dependsOnStep target f) (g.dependsOnStep target f') := by
  intro path id hpath
  unfold dependsOnStep
  cases hnode : g.node? id with
  | none => rfl
  | some n =>
    by_cases hmet : id ∈ path
    · simp only [if_pos hmet]
    · have hsearch : f (id :: path) = f' (id :: path) :=
        funext fun source ↦ h _ source (hpath.cons (mem_keys hnode) hmet)
      rw [hsearch]

/-- Whether a node depends on another one does not depend on what would stand for calls at a depth
of the number of nodes. -/
theorem dependsOnStep_iterate {target : NodeId} {d d' : Nat} (hd : g.nodes.size < d)
    (hd' : g.nodes.size < d') (f f' : List NodeId → NodeId → StateM Verdicts Bool) (id : NodeId) :
    (g.dependsOnStep target)^[d] f [] id = (g.dependsOnStep target)^[d'] f' [] id :=
  iterate_agree (R := g.DependenceAgrees) (fun _ _ _ _ h ↦ absurd h Budget.not_zero)
    (fun _ _ _ h ↦ dependsOnStep_agree h) hd hd' f f' [] id
    (.start (by rw [length_keys]; exact Nat.lt_succ_self _))

theorem dependsOn_eq_of_lt {target : NodeId} {d d' : Nat} (hd : g.nodes.size < d)
    (hd' : g.nodes.size < d') : g.dependsOn target d [] id = g.dependsOn target d' [] id := by
  rw [dependsOn_eq_iterate target d, dependsOn_eq_iterate target d']
  exact dependsOnStep_iterate hd hd' ..

/-! ## Frontiers -/

theorem frontierFrom_eq_iterate (target : NodeId) (d : Nat) :
    g.frontierFrom target d = (g.frontierStep target)^[d] (g.frontierFrom target 0) :=
  eq_iterate (g.frontierFrom_succ target) d

/-- Searches that agree as long as fewer than `k` sources are left. -/
def FrontiersAgree (g : Graph) (k : Nat) (f f' : PinId → StateM FrontierSearch Unit) : Prop :=
  ∀ input (s : FrontierSearch), Budget g.origins k s.seen →
    (f input).run s = (f' input).run s ∧ Budget g.origins k ((f input).run s).2.seen

theorem frontierStep_agree {target : NodeId} {k : Nat} {f f' : PinId → StateM FrontierSearch Unit}
    (h : g.FrontiersAgree k f f') :
    g.FrontiersAgree (k + 1) (g.frontierStep target f) (g.frontierStep target f') := by
  intro input s hseen
  -- The inputs of a node are searched one after another.
  have hinputs (ps : List Pin) (s : FrontierSearch) (hseen : Budget g.origins k s.seen) :
      (ps.forM fun p ↦ f p.id).run s = (ps.forM fun p ↦ f' p.id).run s ∧
        Budget g.origins k ((ps.forM fun p ↦ f p.id).run s).2.seen := by
    induction ps generalizing s with
    | nil => exact ⟨rfl, hseen⟩
    | cons p ps ih =>
      obtain ⟨heq, hnext⟩ := h p.id s hseen
      rw [run_forM_cons, run_forM_cons, ← heq]
      exact ih _ hnext
  rw [run_frontierStep, run_frontierStep]
  cases hdriver : g.driver? input with
  | none => exact ⟨rfl, hseen⟩
  | some c =>
    dsimp only
    by_cases hmet : c.source ∈ s.seen
    · simp only [if_pos hmet]
      exact ⟨trivial, hseen⟩
    · simp only [if_neg hmet]
      have hnext := hseen.cons (source_mem_origins hdriver) hmet
      split
      · exact ⟨rfl, hnext.succ⟩
      · cases (g.dependsOn target (g.nodes.size + 2) [] c.fromNode).run s.verdicts with
        | mk depends verdicts =>
          cases depends with
          | false => exact ⟨rfl, hnext.succ⟩
          | true =>
            simp only [if_pos]
            cases g.node? c.fromNode with
            | none => exact ⟨rfl, hnext.succ⟩
            | some n =>
              have hrest := hinputs n.inputs
                { s with seen := c.source :: s.seen, verdicts := verdicts } hnext
              exact ⟨hrest.1, hrest.2.succ⟩

/-- The frontier of a loop, found by a given search. -/
def frontierBy (search : PinId → StateM FrontierSearch Unit) (loop : Node)
    (pins : List String) : List OutputRef :=
  let searches := pins.forM fun pin ↦
    match loop.input? pin with
    | none => pure ()
    | some p => search p.id
  (searches.run {}).2.found

/-- The frontier of a loop does not depend on what would stand for calls at a depth of the number of
connections. -/
theorem frontierBy_iterate {loop : Node} {d d' : Nat} (hd : g.connections.size < d)
    (hd' : g.connections.size < d') (f f' : PinId → StateM FrontierSearch Unit)
    (pins : List String) :
    frontierBy ((g.frontierStep loop.id)^[d] f) loop pins =
      frontierBy ((g.frontierStep loop.id)^[d'] f') loop pins := by
  have hagree : g.FrontiersAgree (g.connections.size + 1) ((g.frontierStep loop.id)^[d] f)
      ((g.frontierStep loop.id)^[d'] f') :=
    iterate_agree (fun _ _ _ _ h ↦ absurd h Budget.not_zero) (fun _ _ _ h ↦ frontierStep_agree h)
      hd hd' f f'
  unfold frontierBy
  have hpins (s : FrontierSearch) (hs : Budget g.origins (g.connections.size + 1) s.seen) :
      (pins.forM fun pin ↦
        match loop.input? pin with
        | none => pure ()
        | some p => (g.frontierStep loop.id)^[d] f p.id).run s =
      (pins.forM fun pin ↦
        match loop.input? pin with
        | none => pure ()
        | some p => (g.frontierStep loop.id)^[d'] f' p.id).run s := by
    induction pins generalizing s with
    | nil => rfl
    | cons pin pins ih =>
      rw [run_forM_cons, run_forM_cons]
      cases loop.input? pin with
      | none => exact ih s hs
      | some p =>
        obtain ⟨heq, hnext⟩ := hagree p.id s hs
        dsimp only
        rw [← heq]
        exact ih _ hnext
  have hstart := hpins {} (.start (by rw [length_origins]; exact Nat.lt_succ_self _))
  exact congrArg (fun result ↦ result.2.found) hstart

theorem frontier_eq_of_lt {loop : Node} {pins : List String} {d : Nat}
    (hd : g.connections.size < d) :
    g.frontier loop pins = frontierBy (g.frontierFrom loop.id d) loop pins := by
  have hfrontier : g.frontier loop pins =
      frontierBy (g.frontierFrom loop.id g.searchDepth) loop pins := rfl
  rw [hfrontier, frontierFrom_eq_iterate, frontierFrom_eq_iterate loop.id d]
  exact frontierBy_iterate (Nat.lt_succ_self _) hd ..

/-! ## Validation -/

/-- One call of the search for a cycle. -/
def visitStep (g : Graph)
    (search : List NodeId → NodeId → StateT (List NodeId) (Except GraphError) Unit)
    (path : List NodeId) (id : NodeId) : StateT (List NodeId) (Except GraphError) Unit := do
  if id ∈ (← get) then return
  if id ∈ path then throw (.cycle id)
  for source in g.prerequisites id do
    search (id :: path) source
  modify (id :: ·)

theorem visit_eq_iterate (d : Nat) : g.visit d = g.visitStep^[d] (g.visit 0) :=
  eq_iterate (fun d ↦ by funext path id; rw [visit]; rfl) d

/-- A validation that searches for cycles in a given way. -/
def validateBy (g : Graph)
    (search : List NodeId → NodeId → StateT (List NodeId) (Except GraphError) Unit) :
    Except GraphError Unit := do
  if let some c := g.connections.values.find? fun c ↦ !g.joins c then
    throw (.danglingConnection c.id)
  let _ ← (g.nodes.keys.forM (search [])).run []

/-- In a graph without dangling connections, what comes before a node is a stored node. -/
theorem prerequisites_subset (hjoins : ∀ c ∈ g.connections.values, g.joins c) :
    g.prerequisites id ⊆ g.nodes.keys := by
  intro source hsource
  obtain ⟨c, hc, rfl⟩ := List.mem_map.mp hsource
  have hjoin := hjoins c (List.mem_filter.mp hc).1
  unfold joins at hjoin
  cases hnode : g.node? c.fromNode with
  | none => simp [hnode] at hjoin
  | some n => exact mem_keys hnode

/-- Searches that agree on stored nodes as long as fewer than `k` nodes are off the path. -/
def VisitsAgree (g : Graph) (k : Nat)
    (f f' : List NodeId → NodeId → StateT (List NodeId) (Except GraphError) Unit) : Prop :=
  ∀ path, ∀ id ∈ g.nodes.keys, Budget g.nodes.keys k path → f path id = f' path id

theorem visitStep_agree (hjoins : ∀ c ∈ g.connections.values, g.joins c) {k : Nat}
    {f f' : List NodeId → NodeId → StateT (List NodeId) (Except GraphError) Unit}
    (h : g.VisitsAgree k f f') : g.VisitsAgree (k + 1) (g.visitStep f) (g.visitStep f') := by
  intro path id hid hpath
  unfold visitStep
  by_cases hmet : id ∈ path
  · simp only [if_pos hmet]
    rfl
  · have hsearch : (g.prerequisites id).forM (f (id :: path)) =
        (g.prerequisites id).forM (f' (id :: path)) :=
      forM_congr fun source hsource ↦
        h _ source (prerequisites_subset hjoins hsource) (hpath.cons hid hmet)
    simp only [forIn_yield, hsearch]

/-- The outcome of a validation does not depend on what would stand for calls at a depth of the number
of nodes. -/
theorem validateBy_iterate {d d' : Nat} (hd : g.nodes.size < d) (hd' : g.nodes.size < d')
    (f f' : List NodeId → NodeId → StateT (List NodeId) (Except GraphError) Unit) :
    g.validateBy (g.visitStep^[d] f) = g.validateBy (g.visitStep^[d'] f') := by
  unfold validateBy
  cases hfind : g.connections.values.find? fun c ↦ !g.joins c with
  | some c => rfl
  | none =>
    have hjoins : ∀ c ∈ g.connections.values, g.joins c := by
      simpa using List.find?_eq_none.mp hfind
    have hstart : Budget g.nodes.keys (g.nodes.size + 1) [] :=
      .start (by rw [length_keys]; exact Nat.lt_succ_self _)
    have hagree : g.VisitsAgree (g.nodes.size + 1) (g.visitStep^[d] f) (g.visitStep^[d'] f') :=
      iterate_agree (R := g.VisitsAgree) (fun _ _ _ _ _ h ↦ absurd h Budget.not_zero)
        (fun _ _ _ h ↦ visitStep_agree hjoins h) hd hd' f f'
    have hsearch : g.nodes.keys.forM (g.visitStep^[d] f []) =
        g.nodes.keys.forM (g.visitStep^[d'] f' []) :=
      forM_congr fun id hid ↦ hagree [] id hid hstart
    rw [hsearch]

end Graph

end ShaderGraph
