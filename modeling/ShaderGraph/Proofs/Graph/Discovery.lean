import ShaderGraph.Proofs.Termination.Searches

/-!
# The order of discovery

The walk behind an input is specified here without its bound on the depth, as one that keeps a stack of
inputs. The search for the sources of a pin is this walk, so it discovers every upstream output, each of
them once. What several pins share are the sources of the first that are sources of all others as well.
-/

namespace ShaderGraph

namespace Graph

variable {g : Graph} {input : PinId} {inputs : List PinId} {seen found : List OutputRef}
  {o : OutputRef} {n : Node}

/-- The inputs at which a walk goes on behind an output: those of its node, unless that is a barrier. -/
def inputsBehind (g : Graph) (o : OutputRef) : List PinId :=
  match g.node? o.node with
  | none => []
  | some n => if n.kind.isBarrier then [] else n.inputs.map Pin.id

/-- A depth-first walk with a stack of inputs. `found` are the outputs that it discovers, in this order,
if those in `seen` have been discovered before. -/
inductive DepthFirst (g : Graph) : (seen : List OutputRef) → (inputs : List PinId) →
    (found : List OutputRef) → Prop
  | done {seen : List OutputRef} : DepthFirst g seen [] []
  | undriven {seen found : List OutputRef} {input : PinId} {rest : List PinId}
    (hnone : g.driver? input = none) (h : DepthFirst g seen rest found) :
    DepthFirst g seen (input :: rest) found
  | met {seen found : List OutputRef} {input : PinId} {rest : List PinId} {c : Connection}
    (hc : g.driver? input = some c) (hmet : c.source ∈ seen) (h : DepthFirst g seen rest found) :
    DepthFirst g seen (input :: rest) found
  | discover {seen found : List OutputRef} {input : PinId} {rest : List PinId} {c : Connection}
    (hc : g.driver? input = some c) (hnew : c.source ∉ seen)
    (h : DepthFirst g (seen ++ [c.source]) (g.inputsBehind c.source ++ rest) found) :
    DepthFirst g seen (input :: rest) (c.source :: found)

namespace DepthFirst

/-- There is one walk only. -/
theorem unique {found' : List OutputRef} (h : g.DepthFirst seen inputs found)
    (h' : g.DepthFirst seen inputs found') : found = found' := by
  induction h generalizing found' with
  | done =>
    cases h'
    rfl
  | undriven hnone _ ih =>
    cases h' with
    | undriven _ h' => exact ih h'
    | met hc => cases hnone.symm.trans hc
    | discover hc => cases hnone.symm.trans hc
  | met hc hmet _ ih =>
    cases h' with
    | undriven hnone => cases hnone.symm.trans hc
    | met _ _ h' => exact ih h'
    | discover hc' hnew =>
      cases hc.symm.trans hc'
      exact absurd hmet hnew
  | discover hc hnew _ ih =>
    cases h' with
    | undriven hnone => cases hnone.symm.trans hc
    | met hc' hmet =>
      cases hc.symm.trans hc'
      exact absurd hmet hnew
    | discover hc' _ h' =>
      cases hc.symm.trans hc'
      rw [ih h']

/-- No output is discovered twice. -/
theorem nodup (h : g.DepthFirst seen inputs found) : found.Nodup ∧ ∀ o ∈ found, o ∉ seen := by
  induction h with
  | done => exact ⟨.nil, fun _ h ↦ absurd h List.not_mem_nil⟩
  | undriven _ _ ih => exact ih
  | met _ _ _ ih => exact ih
  | discover _ hnew _ ih =>
    obtain ⟨hnodup, hfresh⟩ := ih
    refine ⟨List.nodup_cons.mpr ⟨fun hmem ↦ hfresh _ hmem ?_, hnodup⟩, fun o ho ↦ ?_⟩
    · exact List.mem_append_right _ List.mem_cons_self
    · rcases List.mem_cons.mp ho with rfl | ho
      · exact hnew
      · exact fun hseen ↦ hfresh o ho (List.mem_append_left _ hseen)

/-- The walk leaves nothing behind: if it has yet to look at the inputs behind the outputs seen, or has
met what drives them, then in the end it has met what drives the inputs behind all outputs. -/
theorem closed (h : g.DepthFirst seen inputs found)
    (hseen : ∀ o ∈ seen, ∀ i ∈ g.inputsBehind o, i ∈ inputs ∨
      ∀ c, g.driver? i = some c → c.source ∈ seen) :
    (∀ i ∈ inputs, ∀ c, g.driver? i = some c → c.source ∈ seen ++ found) ∧
      ∀ o ∈ seen ++ found, ∀ i ∈ g.inputsBehind o, ∀ c, g.driver? i = some c →
        c.source ∈ seen ++ found := by
  induction h with
  | done =>
    refine ⟨fun i hi ↦ absurd hi List.not_mem_nil, fun o ho i hi c hc ↦ ?_⟩
    rw [List.append_nil] at ho ⊢
    exact (hseen o ho i hi).resolve_left List.not_mem_nil c hc
  | undriven hnone _ ih =>
    obtain ⟨hinputs, hclosed⟩ := ih fun o ho i hi ↦ by
      obtain hmem | hmet := hseen o ho i hi
      · obtain rfl | hrest := List.mem_cons.mp hmem
        · exact .inr fun c hc ↦ by rw [hnone] at hc; cases hc
        · exact .inl hrest
      · exact .inr hmet
    refine ⟨fun i hi c hc ↦ ?_, hclosed⟩
    obtain rfl | hrest := List.mem_cons.mp hi
    · rw [hnone] at hc
      cases hc
    · exact hinputs i hrest c hc
  | met hdriver hmet _ ih =>
    obtain ⟨hinputs, hclosed⟩ := ih fun o ho i hi ↦ by
      obtain hmem | hmet' := hseen o ho i hi
      · obtain rfl | hrest := List.mem_cons.mp hmem
        · exact .inr fun c hc ↦ by
            cases hdriver.symm.trans hc
            exact hmet
        · exact .inl hrest
      · exact .inr hmet'
    refine ⟨fun i hi c hc ↦ ?_, hclosed⟩
    obtain rfl | hrest := List.mem_cons.mp hi
    · cases hdriver.symm.trans hc
      exact List.mem_append_left _ hmet
    · exact hinputs i hrest c hc
  | @discover seen found input rest c hdriver _ _ ih =>
    obtain ⟨hinputs, hclosed⟩ := ih fun o ho i hi ↦ by
      obtain ho | ho := List.mem_append.mp ho
      · obtain hmem | hmet := hseen o ho i hi
        · obtain rfl | hrest := List.mem_cons.mp hmem
          · exact .inr fun c' hc' ↦ by
              cases hdriver.symm.trans hc'
              exact List.mem_append_right _ List.mem_cons_self
          · exact .inl (List.mem_append_right _ hrest)
        · exact .inr fun c' hc' ↦ List.mem_append_left _ (hmet c' hc')
      · obtain rfl := List.mem_singleton.mp ho
        exact .inl (List.mem_append_left _ hi)
    rw [List.append_assoc, List.singleton_append] at hinputs hclosed
    refine ⟨fun i hi c' hc' ↦ ?_, hclosed⟩
    obtain rfl | hrest := List.mem_cons.mp hi
    · cases hdriver.symm.trans hc'
      exact List.mem_append_right _ List.mem_cons_self
    · exact hinputs i (List.mem_append_right _ hrest) c' hc'

/-- A walk from one input discovers everything upstream of it. -/
theorem mem_of_upstream (h : g.DepthFirst [] [input] found)
    (ho : g.Upstream NodeKind.isBarrier input o) : o ∈ found := by
  obtain ⟨hinputs, hclosed⟩ := h.closed fun o ho ↦ absurd ho List.not_mem_nil
  induction ho with
  | driver hc => exact hinputs input List.mem_cons_self _ hc
  | @through o n p c _ hn hkind hp hc ih =>
    refine hclosed o ih p.id ?_ c hc
    simp only [inputsBehind, hn, hkind]
    exact List.mem_map_of_mem hp

end DepthFirst

/-- Discovering `new` behind the inputs is how a walk begins that has these inputs on its stack. -/
def Begins (g : Graph) (seen : List OutputRef) (inputs : List PinId) (new : List OutputRef) : Prop :=
  ∀ rest found, g.DepthFirst (seen ++ new) rest found →
    g.DepthFirst seen (inputs ++ rest) (new ++ found)

theorem Begins.append {new new' : List OutputRef} {inputs' : List PinId}
    (h : g.Begins seen inputs new) (h' : g.Begins (seen ++ new) inputs' new') :
    g.Begins seen (inputs ++ inputs') (new ++ new') := by
  intro rest found hrest
  rw [← List.append_assoc] at hrest
  rw [List.append_assoc, List.append_assoc]
  exact h _ _ (h' rest found hrest)

theorem Begins.nil : g.Begins seen [] [] := by
  intro rest found h
  rwa [List.append_nil] at h

/-- A search that discovers an output goes on with the inputs behind it. -/
theorem sourcesFrom_of_new {k : Nat} {c : Connection} (hc : g.driver? input = some c)
    (hnew : c.source ∉ seen) : g.sourcesFrom (k + 1) seen input =
      (g.inputsBehind c.source).foldl (g.sourcesFrom k) (seen ++ [c.source]) := by
  rw [sourcesFrom, hc, inputsBehind, show c.source.node = c.fromNode from rfl]
  dsimp only
  rw [if_neg hnew]
  cases g.node? c.fromNode with
  | none => rfl
  | some n =>
    dsimp only
    split
    · rfl
    · rw [List.foldl_map]

/-- As long as the bound on the depth exceeds the number of outputs that are left, the search is a
depth-first walk. -/
theorem exists_begins_sourcesFrom {k : Nat} (h : Budget g.origins k seen) :
    ∃ new, g.sourcesFrom k seen input = seen ++ new ∧ Budget g.origins k (seen ++ new) ∧
      g.Begins seen [input] new := by
  induction k generalizing seen input with
  | zero => exact absurd h Budget.not_zero
  | succ k ih =>
    have hstop (hbegins : g.Begins seen [input] []) : ∃ new, seen = seen ++ new ∧
        Budget g.origins (k + 1) (seen ++ new) ∧ g.Begins seen [input] new :=
      ⟨[], (List.append_nil _).symm, by rwa [List.append_nil], hbegins⟩
    cases hdriver : g.driver? input with
    | none =>
      rw [sourcesFrom, hdriver]
      refine hstop fun rest found hrest ↦ .undriven hdriver ?_
      rwa [List.append_nil] at hrest
    | some c =>
      by_cases hmet : c.source ∈ seen
      · rw [sourcesFrom, hdriver]
        dsimp only
        rw [if_pos hmet]
        refine hstop fun rest found hrest ↦ .met hdriver hmet ?_
        rwa [List.append_nil] at hrest
      · -- The inputs behind the output are searched one after another.
        have hfold (inputs : List PinId) (seen : List OutputRef) (h : Budget g.origins k seen) :
            ∃ new, inputs.foldl (g.sourcesFrom k) seen = seen ++ new ∧
              Budget g.origins k (seen ++ new) ∧ g.Begins seen inputs new := by
          induction inputs generalizing seen with
          | nil => exact ⟨[], (List.append_nil _).symm, by rwa [List.append_nil], .nil⟩
          | cons i inputs ihinputs =>
            obtain ⟨new, heq, hbudget, hbegins⟩ : ∃ new, g.sourcesFrom k seen i = seen ++ new ∧
                Budget g.origins k (seen ++ new) ∧ g.Begins seen [i] new := ih h
            obtain ⟨new', heq', hbudget', hbegins'⟩ := ihinputs _ hbudget
            rw [List.append_assoc] at heq' hbudget'
            exact ⟨new ++ new', by rw [List.foldl_cons, heq, heq'], hbudget', hbegins.append hbegins'⟩
        obtain ⟨new, heq, hbudget, hbegins⟩ :=
          hfold (g.inputsBehind c.source) _ (h.concat (source_mem_origins hdriver) hmet)
        rw [List.append_assoc, List.singleton_append] at heq hbudget
        refine ⟨c.source :: new, by rw [sourcesFrom_of_new hdriver hmet, heq], hbudget.succ, ?_⟩
        intro rest found hrest
        refine .discover hdriver hmet (hbegins rest found ?_)
        rwa [List.append_assoc, List.singleton_append]

/-- The sources of a pin are found by a depth-first walk. -/
theorem depthFirst_sources (g : Graph) (n : Node) (pin : String) :
    g.DepthFirst [] ((n.input? pin).toList.map Pin.id) (g.sources n pin) := by
  rw [sources]
  cases n.input? pin with
  | none => exact .done
  | some p =>
    have hstart : Budget g.origins g.searchDepth [] :=
      .start (by rw [length_origins]; exact Nat.lt_succ_self _)
    obtain ⟨new, heq, -, hbegins⟩ : ∃ new, g.sourcesFrom g.searchDepth [] p.id = [] ++ new ∧
        Budget g.origins g.searchDepth ([] ++ new) ∧ g.Begins [] [p.id] new :=
      exists_begins_sourcesFrom hstart
    have hwalk := hbegins [] [] .done
    dsimp only
    rwa [heq, ← List.append_nil ([] ++ new)]

/-- The sources of a pin are the outputs upstream of it. -/
theorem mem_sources_iff {pin : String} : o ∈ g.sources n pin ↔
    ∃ p, n.input? pin = some p ∧ g.Upstream NodeKind.isBarrier p.id o := by
  refine ⟨mem_sources, fun ⟨p, hp, ho⟩ ↦ ?_⟩
  have hwalk := g.depthFirst_sources n pin
  rw [hp] at hwalk
  exact hwalk.mem_of_upstream ho

/-- What pins share are the outputs upstream of all of them. -/
theorem mem_commonOutputs_iff {pin : String} {pins : List String} :
    o ∈ g.commonOutputs n (pin :: pins) ↔
      ∀ q ∈ pin :: pins, ∃ p, n.input? q = some p ∧ g.Upstream NodeKind.isBarrier p.id o := by
  refine ⟨mem_commonOutputs, fun h ↦ ?_⟩
  refine List.mem_filter.mpr ⟨mem_sources_iff.mpr (h pin List.mem_cons_self), ?_⟩
  refine List.all_eq_true.mpr fun found hfound ↦ ?_
  obtain ⟨q, hq, rfl⟩ := List.mem_map.mp hfound
  exact decide_eq_true (mem_sources_iff.mpr (h q (List.mem_cons_of_mem _ hq)))

end Graph

end ShaderGraph
