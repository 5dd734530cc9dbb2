import Mathlib.Logic.Relation
import ShaderGraph.Graph.Dependence
import ShaderGraph.Graph.Validation
import ShaderGraph.Proofs.Graph.Editing

/-!
# Upstream outputs

The outputs upstream of an input are those from which connections lead to it, through nodes at whose
kinds the walk does not stop. What is moved in front of a branch is upstream of all of its branch pins,
and what is moved in front of a loop is upstream of the inputs of its body.
-/

namespace ShaderGraph

theorem NodeKind.isInterpolator_iff {k : NodeKind} : k.isInterpolator ↔ k = .interpolator := by
  cases k <;> simp [NodeKind.isInterpolator]

namespace Graph

variable {g : Graph} {stop : NodeKind → Bool} {input : PinId} {o : OutputRef} {n : Node}

/-- An output from which connections lead to an input, through nodes of kinds other than those at
which the walk stops. -/
inductive Upstream (g : Graph) (stop : NodeKind → Bool) (input : PinId) : OutputRef → Prop
  | driver {c : Connection} (h : g.driver? input = some c) : Upstream g stop input c.source
  | through {o : OutputRef} {n : Node} {p : Pin} {c : Connection} (h : Upstream g stop input o)
    (hn : g.node? o.node = some n) (hkind : stop n.kind = false) (hp : p ∈ n.inputs)
    (hc : g.driver? p.id = some c) : Upstream g stop input c.source

namespace Upstream

theorem extend {c : Connection} {p : Pin} (hc : g.driver? input = some c)
    (hn : g.node? c.fromNode = some n) (hkind : stop n.kind = false) (hp : p ∈ n.inputs)
    (h : g.Upstream stop p.id o) : g.Upstream stop input o := by
  induction h with
  | driver hdriver => exact .through (.driver hc) hn hkind hp hdriver
  | through _ hm hstop hq hdriver ih => exact .through ih hm hstop hq hdriver

theorem mono {stop' : NodeKind → Bool} (hstop : ∀ k, stop k = false → stop' k = false)
    (h : g.Upstream stop input o) : g.Upstream stop' input o := by
  induction h with
  | driver hdriver => exact .driver hdriver
  | through _ hm hkind hp hdriver ih => exact .through ih hm (hstop _ hkind) hp hdriver

end Upstream

/-- A node that a terminal reads, directly or through others. -/
inductive IsRead (g : Graph) : Node → Prop
  | terminal {n : Node} (hn : n ∈ g.nodes.values) (hkind : n.kind.isPixelOutput ∨ n.kind.isVertexOutput) :
    IsRead g n
  | input {n m : Node} {p : Pin} {c : Connection} (h : IsRead g n) (hp : p ∈ n.inputs)
    (hc : g.driver? p.id = some c) (hm : g.node? c.fromNode = some m) : IsRead g m

namespace IsRead

theorem mem (h : g.IsRead n) : n ∈ g.nodes.values := by
  cases h with
  | terminal hn _ => exact hn
  | input _ _ _ hm => exact OrderedMap.mem_values_of_get? hm

theorem upstream {m : Node} {p : Pin} (h : g.IsRead n) (hp : p ∈ n.inputs)
    (ho : g.Upstream stop p.id o) (hm : g.node? o.node = some m) : g.IsRead m := by
  induction ho generalizing m with
  | driver hc => exact .input h hp hc hm
  | through _ hn _ hq hc ih => exact .input (ih hn) hq hc hm

end IsRead

/-! ## Sources -/

theorem mem_sourcesFrom {depth : Nat} {found : List OutputRef}
    (h : o ∈ g.sourcesFrom depth found input) :
    o ∈ found ∨ g.Upstream NodeKind.isBarrier input o := by
  induction depth generalizing found input with
  | zero => exact .inl h
  | succ depth ih =>
    have hnew {c : Connection} (hc : g.driver? input = some c) (h : o ∈ found ++ [c.source]) :
        o ∈ found ∨ g.Upstream NodeKind.isBarrier input o := by
      rcases List.mem_append.mp h with h | h
      · exact .inl h
      · obtain rfl := List.mem_singleton.mp h
        exact .inr (.driver hc)
    rw [sourcesFrom] at h
    split at h
    · exact .inl h
    · next c hc =>
      split at h
      · exact .inl h
      · split at h
        · exact hnew hc h
        · next n hn =>
          split at h
          · exact hnew hc h
          · next hkind =>
            -- The inputs of the node are searched one after another.
            have hfold (ps : List Pin) (hps : ps ⊆ n.inputs) (found' : List OutputRef)
                (h : o ∈ ps.foldl (fun found p ↦ g.sourcesFrom depth found p.id) found') :
                o ∈ found' ∨ g.Upstream NodeKind.isBarrier input o := by
              induction ps generalizing found' with
              | nil => exact .inl h
              | cons p ps ihps =>
                obtain ⟨hp, hps⟩ := List.cons_subset.mp hps
                rcases ihps hps _ h with h | h
                · exact (ih h).imp_right (.extend hc hn (by simpa using hkind) hp)
                · exact .inr h
            exact (hfold _ (List.Subset.refl _) _ h).elim (hnew hc) .inr

theorem mem_sources {pin : String} (h : o ∈ g.sources n pin) :
    ∃ p, n.input? pin = some p ∧ g.Upstream NodeKind.isBarrier p.id o := by
  unfold sources at h
  split at h
  · simp at h
  · next p hp => exact ⟨p, hp, (mem_sourcesFrom h).resolve_left (by simp)⟩

/-- What the branches share is upstream of every one of them, through no loop and no interpolator. -/
theorem mem_commonOutputs {pins : List String} (h : o ∈ g.commonOutputs n pins) :
    ∀ pin ∈ pins, ∃ p, n.input? pin = some p ∧ g.Upstream NodeKind.isBarrier p.id o := by
  intro pin hpin
  cases pins with
  | nil => simp at hpin
  | cons first rest =>
    obtain ⟨hfirst, hrest⟩ := List.mem_filter.mp h
    rcases List.mem_cons.mp hpin with rfl | hpin
    · exact mem_sources hfirst
    · have hothers := List.all_eq_true.mp hrest (g.sources n pin) (List.mem_map_of_mem hpin)
      exact mem_sources (by simpa using hothers)

/-! ## Dependence -/

section Dependence

variable {target id : NodeId}

/-- The nodes whose outputs drive the inputs of a node; none for an interpolator. -/
def suppliers (g : Graph) (id : NodeId) : List NodeId :=
  match g.node? id with
  | none => []
  | some n =>
    if n.kind.isInterpolator then []
    else n.inputs.filterMap fun p ↦ (g.driver? p.id).map Connection.fromNode

def Supplies (g : Graph) (source id : NodeId) : Prop :=
  source ∈ g.suppliers id

instance (g : Graph) (source id : NodeId) : Decidable (g.Supplies source id) :=
  List.instDecidableMemOfLawfulBEq ..

/-- Connections lead from the target to a node, through no interpolator and not into one. -/
def DependsOn (g : Graph) (target id : NodeId) : Prop :=
  Relation.ReflTransGen g.Supplies target id

theorem dependsOn_iff :
    g.DependsOn target id ↔ id = target ∨ ∃ source ∈ g.suppliers id, g.DependsOn target source := by
  constructor
  · intro h
    cases h with
    | refl => exact .inl rfl
    | tail hsource hsupplies => exact .inr ⟨_, hsupplies, hsource⟩
  · rintro (rfl | ⟨source, hsupplies, hsource⟩)
    · exact .refl
    · exact hsource.tail hsupplies

/-- Other nodes that depend on the target are no interpolators. -/
theorem DependsOn.isInterpolator_eq_false (h : g.DependsOn target id) (hne : id ≠ target)
    (hn : g.node? id = some n) : n.kind.isInterpolator = false := by
  rcases dependsOn_iff.mp h with heq | ⟨source, hsource, -⟩
  · exact absurd heq hne
  · by_contra hkind
    rw [suppliers, hn] at hsource
    simp [hkind] at hsource

end Dependence

/-! ## Searches with a state -/

section State

variable {σ α : Type} {I : σ → Prop}

/-- A search through a list stops or goes on in a state that its test leaves behind. -/
theorem anyM_preserves {f : α → StateM σ Bool} {as : List α}
    (hf : ∀ a ∈ as, ∀ s, I s → I ((f a).run s).2) {s : σ} (hs : I s) :
    I ((as.anyM f).run s).2 := by
  induction as generalizing s with
  | nil => exact hs
  | cons a as ih =>
    have ha := hf a List.mem_cons_self s hs
    rw [List.anyM_cons, StateT.run_bind]
    cases hr : (f a).run s with
    | mk found t =>
      rw [hr] at ha
      cases found with
      | true => exact ha
      | false => exact ih (fun a ha ↦ hf a (List.mem_cons_of_mem _ ha)) ha

/-- A test of a list that succeeds has succeeded on a member. -/
theorem exists_of_anyM {f : α → StateM σ Bool} {as : List α} {Q : α → Prop}
    (hf : ∀ a ∈ as, ∀ s, I s → I ((f a).run s).2 ∧ (((f a).run s).1 = true → Q a)) {s : σ}
    (hs : I s) (h : ((as.anyM f).run s).1 = true) : ∃ a ∈ as, Q a := by
  induction as generalizing s with
  | nil => cases h
  | cons a as ih =>
    obtain ⟨hnext, htrue⟩ := hf a List.mem_cons_self s hs
    rw [List.anyM_cons, StateT.run_bind] at h
    cases hr : (f a).run s with
    | mk found t =>
      rw [hr] at hnext htrue h
      cases found with
      | true => exact ⟨a, List.mem_cons_self, htrue rfl⟩
      | false =>
        obtain ⟨b, hb, hQ⟩ := ih (fun b hb ↦ hf b (List.mem_cons_of_mem _ hb)) hnext h
        exact ⟨b, List.mem_cons_of_mem _ hb, hQ⟩

/-- A test of a list that fails has failed on one member after another. -/
theorem forall_of_anyM {I : List α → σ → Prop} {f : α → StateM σ Bool} {as : List α}
    (hf : ∀ done, ∀ a ∈ as, ∀ s, I done s → ((f a).run s).1 = false → I (a :: done) ((f a).run s).2)
    {done : List α} {s : σ} (hs : I done s) (h : ((as.anyM f).run s).1 = false) :
    I (as.reverse ++ done) ((as.anyM f).run s).2 := by
  induction as generalizing s done with
  | nil => exact hs
  | cons a as ih =>
    have hfirst := hf done a List.mem_cons_self s hs
    rw [List.anyM_cons, StateT.run_bind] at h ⊢
    cases hr : (f a).run s with
    | mk found t =>
      rw [hr] at hfirst h
      cases found with
      | true => cases h
      | false =>
        rw [List.reverse_cons, List.append_assoc]
        exact ih (fun done b hb ↦ hf done b (List.mem_cons_of_mem _ hb)) (hfirst rfl) h

theorem forM_preserves {f : α → StateM σ PUnit} {as : List α}
    (hf : ∀ a ∈ as, ∀ s, I s → I ((f a).run s).2) {s : σ} (hs : I s) :
    I ((as.forM f).run s).2 := by
  induction as generalizing s with
  | nil => exact hs
  | cons a as ih =>
    change I ((f a >>= fun _ ↦ as.forM f).run s).2
    rw [StateT.run_bind]
    exact ih (fun a ha ↦ hf a (List.mem_cons_of_mem _ ha)) (hf a List.mem_cons_self s hs)

theorem forIn_yield {m : Type → Type} [Monad m] [LawfulMonad m] {f : α → m PUnit} {as : List α} :
    (forIn as PUnit.unit fun a _ ↦ do f a; pure (ForInStep.yield PUnit.unit)) = as.forM f := by
  induction as with
  | nil => rfl
  | cons a as ih =>
    rw [List.forIn_cons, bind_assoc]
    simp only [pure_bind, ih]
    rfl

end State

/-- The verdict on a node that the search enters: it depends on the target if the source of one of its
inputs does. -/
def verdict (g : Graph) (target : NodeId) (depth : Nat) (path : List NodeId) (id : NodeId) :
    StateM Verdicts Bool :=
  match g.node? id with
  | none => pure false
  | some n =>
    if n.kind.isInterpolator then pure false
    else
      n.inputs.anyM fun p ↦
        match g.driver? p.id with
        | none => pure false
        | some c => g.dependsOn target depth (id :: path) c.fromNode

section Verdicts

variable {target id : NodeId} {depth : Nat} {path : List NodeId} {verdicts : Verdicts}

theorem run_dependsOn_succ : (g.dependsOn target (depth + 1) path id).run verdicts =
    if id = target then (true, verdicts)
    else
      match verdicts.lookup id with
      | some known => (known, verdicts)
      | none =>
        if id ∈ path then (false, verdicts)
        else
          let (found, verdicts) := (g.verdict target depth path id).run verdicts
          (found, (id, found) :: verdicts) := by
  rw [dependsOn, verdict]
  split
  · rfl
  · simp only [StateT.run_bind, StateT.run_get, pure_bind]
    cases verdicts.lookup id with
    | some known => rfl
    | none =>
      dsimp only
      split
      · rfl
      · cases g.node? id with
        | none => rfl
        | some n =>
          dsimp only
          split <;> rfl

/-- The verdict on a node is the test of the nodes that supply it. -/
theorem verdict_eq_anyM : g.verdict target depth path id =
    (g.suppliers id).anyM (g.dependsOn target depth (id :: path)) := by
  unfold verdict suppliers
  cases g.node? id with
  | none => rfl
  | some n =>
    dsimp only
    split
    · rfl
    · induction n.inputs with
      | nil => rfl
      | cons p ps ih =>
        rw [List.anyM_cons, ih]
        cases hdriver : g.driver? p.id with
        | none => simp [hdriver]
        | some c => simp [hdriver, List.anyM_cons]

/-- Verdicts that find a dependence only where there is one. -/
def Verdicts.Sound (g : Graph) (target : NodeId) (verdicts : Verdicts) : Prop :=
  ∀ id, (id, true) ∈ verdicts → g.DependsOn target id

theorem Verdicts.Sound.cons (h : verdicts.Sound g target) {found : Bool}
    (hid : found = true → g.DependsOn target id) :
    Verdicts.Sound g target ((id, found) :: verdicts) := by
  intro other hother
  rcases List.mem_cons.mp hother with heq | hother
  · obtain ⟨rfl, rfl⟩ := Prod.mk.inj heq
    exact hid rfl
  · exact h other hother

theorem dependsOn_sound (h : verdicts.Sound g target) (depth : Nat) (path : List NodeId)
    (id : NodeId) :
    Verdicts.Sound g target ((g.dependsOn target depth path id).run verdicts).2 ∧
      (((g.dependsOn target depth path id).run verdicts).1 = true → g.DependsOn target id) := by
  induction depth generalizing path id verdicts with
  | zero => exact ⟨h, fun hfalse ↦ by cases hfalse⟩
  | succ depth ih =>
    rw [run_dependsOn_succ, verdict_eq_anyM]
    split
    · next hid => exact ⟨h, fun _ ↦ hid ▸ .refl⟩
    · split
      · next known hknown =>
        refine ⟨h, fun htrue ↦ h id ?_⟩
        obtain rfl : known = true := htrue
        exact entry_mem_of_lookup hknown
      · split
        · exact ⟨h, fun hfalse ↦ by cases hfalse⟩
        · have hsource (source : NodeId) (_ : source ∈ g.suppliers id) (verdicts : Verdicts)
              (h : verdicts.Sound g target) := ih h (id :: path) source
          have hsearch := anyM_preserves (I := Verdicts.Sound g target)
            (fun source hmem verdicts h ↦ (hsource source hmem verdicts h).1) h
          have hfound := exists_of_anyM (I := Verdicts.Sound g target) hsource h
          cases hrun : ((g.suppliers id).anyM (g.dependsOn target depth (id :: path))).run verdicts with
          | mk found verdicts' =>
            rw [hrun] at hsearch hfound
            have hid (htrue : found = true) : g.DependsOn target id :=
              dependsOn_iff.mpr (.inr (hfound htrue))
            exact ⟨hsearch.cons hid, hid⟩

end Verdicts

/-! ## Frontiers -/

theorem FrontierSearch.run_dependsOn {target id : NodeId} {s : FrontierSearch} :
    (FrontierSearch.dependsOn g target id).run s =
      let (depends, verdicts) := (g.dependsOn target (g.nodes.size + 2) [] id).run s.verdicts
      (depends, { s with verdicts }) :=
  rfl

/-- One call of the search for a frontier; `search` stands for the calls inside of it. -/
def frontierStep (g : Graph) (target : NodeId) (search : PinId → StateM FrontierSearch Unit)
    (input : PinId) : StateM FrontierSearch Unit := do
  let some c := g.driver? input | return
  if c.source ∈ (← get).seen then return
  modify fun s ↦ { s with seen := c.source :: s.seen }
  if c.fromNode = target then return
  if ← FrontierSearch.dependsOn g target c.fromNode then
    let some n := g.node? c.fromNode | return
    for p in n.inputs do
      search p.id
  else
    modify fun s ↦ { s with found := s.found ++ [c.source] }

theorem frontierFrom_succ (target : NodeId) (depth : Nat) :
    g.frontierFrom target (depth + 1) = g.frontierStep target (g.frontierFrom target depth) := by
  funext input
  rw [frontierFrom]
  rfl

theorem run_frontierStep {target : NodeId} {search : PinId → StateM FrontierSearch Unit}
    {s : FrontierSearch} :
    (g.frontierStep target search input).run s =
      match g.driver? input with
      | none => (⟨⟩, s)
      | some c =>
        if c.source ∈ s.seen then (⟨⟩, s)
        else if c.fromNode = target then (⟨⟩, { s with seen := c.source :: s.seen })
        else
          let (depends, verdicts) :=
            (g.dependsOn target (g.nodes.size + 2) [] c.fromNode).run s.verdicts
          if depends then
            match g.node? c.fromNode with
            | none => (⟨⟩, { s with seen := c.source :: s.seen, verdicts })
            | some n =>
              (n.inputs.forM fun p ↦ search p.id).run
                { s with seen := c.source :: s.seen, verdicts }
          else
            (⟨⟩, { seen := c.source :: s.seen, found := s.found ++ [c.source], verdicts }) := by
  rw [frontierStep]
  cases g.driver? input with
  | none => rfl
  | some c =>
    simp only [StateT.run_bind, StateT.run_get, pure_bind]
    split
    · rfl
    · simp only [StateT.run_bind, StateT.run_modify, pure_bind]
      split
      · rfl
      · simp only [StateT.run_bind, forIn_yield, bind_pure_unit]
        rw [FrontierSearch.run_dependsOn]
        cases (g.dependsOn target (g.nodes.size + 2) [] c.fromNode).run s.verdicts with
        | mk depends verdicts =>
          cases depends with
          | false => rfl
          | true =>
            cases g.node? c.fromNode with
            | none => rfl
            | some n => rfl

theorem run_frontierFrom_succ {target : NodeId} {depth : Nat} {s : FrontierSearch} :
    (g.frontierFrom target (depth + 1) input).run s =
      match g.driver? input with
      | none => (⟨⟩, s)
      | some c =>
        if c.source ∈ s.seen then (⟨⟩, s)
        else if c.fromNode = target then (⟨⟩, { s with seen := c.source :: s.seen })
        else
          let (depends, verdicts) :=
            (g.dependsOn target (g.nodes.size + 2) [] c.fromNode).run s.verdicts
          if depends then
            match g.node? c.fromNode with
            | none => (⟨⟩, { s with seen := c.source :: s.seen, verdicts })
            | some n =>
              (n.inputs.forM fun p ↦ g.frontierFrom target depth p.id).run
                { s with seen := c.source :: s.seen, verdicts }
          else
            (⟨⟩, { seen := c.source :: s.seen, found := s.found ++ [c.source], verdicts }) := by
  rw [frontierFrom_succ, run_frontierStep]

/-- The outputs that feed pins of a loop, directly or through the nodes of other outputs inside of the
region. -/
inductive FeedsLoop (g : Graph) (loop : Node) (pins : List String) (inside : OutputRef → Prop) :
    OutputRef → Prop
  | driver {pin : String} {p : Pin} {c : Connection} (hpin : pin ∈ pins) (hp : loop.input? pin = some p)
    (hc : g.driver? p.id = some c) : FeedsLoop g loop pins inside c.source
  | through {o : OutputRef} {n : Node} {p : Pin} {c : Connection} (h : FeedsLoop g loop pins inside o)
    (hne : o.node ≠ loop.id) (ho : inside o) (hn : g.node? o.node = some n) (hp : p ∈ n.inputs)
    (hc : g.driver? p.id = some c) : FeedsLoop g loop pins inside c.source

/-- A search that has found outputs with a property only. -/
structure FrontierSearch.Sound (g : Graph) (target : NodeId) (Q : OutputRef → Prop)
    (s : FrontierSearch) : Prop where
  found : ∀ o ∈ s.found, Q o
  verdicts : s.verdicts.Sound g target

/-- The search passes a property on through the nodes that depend on the target. -/
theorem frontierFrom_sound {Q : OutputRef → Prop} {target : NodeId} {depth : Nat}
    {s : FrontierSearch} (hQ : ∀ o n p c, Q o → o.node ≠ target → g.DependsOn target o.node →
      g.node? o.node = some n → p ∈ n.inputs → g.driver? p.id = some c → Q c.source)
    (hinput : ∀ c, g.driver? input = some c → Q c.source) (h : s.Sound g target Q) :
    FrontierSearch.Sound g target Q ((g.frontierFrom target depth input).run s).2 := by
  induction depth generalizing input s with
  | zero => exact h
  | succ depth ih =>
    rw [run_frontierFrom_succ]
    split
    · exact h
    · next c hc =>
      split
      · exact h
      · split
        · exact ⟨h.found, h.verdicts⟩
        · next hne =>
          obtain ⟨hverdicts, hdepends⟩ :=
            dependsOn_sound h.verdicts (g.nodes.size + 2) [] c.fromNode
          cases hrun : (g.dependsOn target (g.nodes.size + 2) [] c.fromNode).run s.verdicts with
          | mk depends verdicts =>
            rw [hrun] at hverdicts hdepends
            cases depends with
            | false =>
              refine ⟨fun o ho ↦ ?_, hverdicts⟩
              rcases List.mem_append.mp ho with ho | ho
              · exact h.found o ho
              · obtain rfl := List.mem_singleton.mp ho
                exact hinput c hc
            | true =>
              dsimp only
              rw [if_pos rfl]
              split
              · exact ⟨h.found, hverdicts⟩
              · next n hn =>
                exact forM_preserves (I := FrontierSearch.Sound g target Q)
                  (fun p hp s hs ↦ ih (fun c' hc' ↦
                    hQ c.source n p c' (hinput c hc) hne (hdepends rfl) hn hp hc') hs)
                  ⟨h.found, hverdicts⟩

/-- What is moved in front of a loop feeds the loop through nodes that depend on it. -/
theorem feeds_of_mem_frontier {pins : List String} (h : o ∈ g.frontier n pins) :
    g.FeedsLoop n pins (fun o ↦ g.DependsOn n.id o.node) o := by
  have hstart : FrontierSearch.Sound g n.id (g.FeedsLoop n pins fun o ↦ g.DependsOn n.id o.node) {} :=
    ⟨by simp, fun _ h ↦ by simp at h⟩
  refine (forM_preserves (I := FrontierSearch.Sound g n.id _) (fun pin hpin s hs ↦ ?_) hstart).found
    o h
  split
  · exact hs
  · next p hp =>
    exact frontierFrom_sound (fun _ _ _ _ ho hne hdepends hm hq hc ↦ .through ho hne hdepends hm hq hc)
      (fun c hc ↦ .driver hpin hp hc) hs

/-- What is moved in front of a loop is upstream of one of the inputs of its body, through no
interpolator. -/
theorem mem_frontier {pins : List String} (h : o ∈ g.frontier n pins) :
    ∃ pin ∈ pins, ∃ p, n.input? pin = some p ∧ g.Upstream NodeKind.isInterpolator p.id o := by
  have hfeeds := feeds_of_mem_frontier h
  clear h
  induction hfeeds with
  | driver hpin hp hc => exact ⟨_, hpin, _, hp, .driver hc⟩
  | through _ hne hdepends hm hq hc ih =>
    obtain ⟨pin, hpin, p, hp, hupstream⟩ := ih
    exact ⟨pin, hpin, p, hp, .through hupstream hm (hdepends.isInterpolator_eq_false hne hm) hq hc⟩

/-- What is moved in front of a node is upstream of one of its inputs. -/
theorem upstream_of_hoisted {pins : List String}
    (h : o ∈ g.commonOutputs n pins ∨ o ∈ g.frontier n pins) :
    ∃ p ∈ n.inputs, g.Upstream NodeKind.isInterpolator p.id o := by
  rcases h with h | h
  · cases pins with
    | nil => simp [commonOutputs] at h
    | cons pin pins =>
      obtain ⟨p, hp, ho⟩ := mem_commonOutputs h pin List.mem_cons_self
      refine ⟨p, List.mem_of_find?_eq_some hp, ho.mono fun k hk ↦ ?_⟩
      exact (Bool.or_eq_false_iff.mp hk).2
  · obtain ⟨pin, -, p, hp, ho⟩ := mem_frontier h
    exact ⟨p, List.mem_of_find?_eq_some hp, ho⟩

end Graph

end ShaderGraph
