import Mathlib.Logic.Relation
import ShaderGraph.Proofs.Graph.Wiring
import ShaderGraph.Proofs.Termination.Searches

/-!
# Valid graphs

A graph is valid exactly if all of its connections join an output to an input and no cycle of them avoids
the loops. The order in which nodes and connections are stored decides only which error an invalid graph
has.
-/

namespace ShaderGraph

namespace Graph

variable {g : Graph} {id source : NodeId} {depth : Nat} {path done done' : List NodeId}

/-- A connection that does not leave a loop leads from the first node to the second. -/
def Precedes (g : Graph) (source id : NodeId) : Prop :=
  source ∈ g.prerequisites id

theorem precedes_iff :
    g.Precedes source id ↔
      ∃ c ∈ g.connections.values, c.fromNode = source ∧ c.toNode = id ∧ ¬ g.isLoopNode source := by
  simp only [Precedes, prerequisites, List.mem_map, List.mem_filter, Bool.and_eq_true,
    decide_eq_true_eq, Bool.not_eq_true', Bool.not_eq_true]
  constructor
  · rintro ⟨c, ⟨hc, hto, hloop⟩, rfl⟩
    exact ⟨c, hc, rfl, hto, hloop⟩
  · rintro ⟨c, hc, rfl, hto, hloop⟩
    exact ⟨c, ⟨hc, hto, hloop⟩, rfl⟩

/-- No cycle of connections avoids the loops. -/
def IsAcyclic (g : Graph) : Prop :=
  ∀ id, ¬ Relation.TransGen g.Precedes id id

/-! ## Finished nodes -/

/-- Each node of the list comes after what precedes it. -/
def IsSorted (g : Graph) : List NodeId → Prop
  | [] => True
  | id :: done => id ∉ done ∧ g.prerequisites id ⊆ done ∧ g.IsSorted done

theorem IsSorted.ne_of_transGen (h : g.IsSorted done) (hid : id ∈ done)
    (hpath : Relation.TransGen g.Precedes source id) : source ∈ done ∧ source ≠ id := by
  induction done generalizing id with
  | nil => cases hid
  | cons first done ih =>
    obtain ⟨hfirst, hprerequisites, hdone⟩ := h
    rcases List.mem_cons.mp hid with rfl | hid
    · -- The last step of the path leads from a node that is finished before.
      have hsource : source ∈ done := by
        cases hpath with
        | single hstep => exact hprerequisites hstep
        | tail hpath hstep => exact (ih hdone (hprerequisites hstep) hpath).1
      exact ⟨List.mem_cons_of_mem _ hsource, ne_of_mem_of_not_mem hsource hfirst⟩
    · obtain ⟨hsource, hne⟩ := ih hdone hid hpath
      exact ⟨List.mem_cons_of_mem _ hsource, hne⟩

/-- Finished nodes after a search that finishes more of them, but none of a path. -/
structure Finishes (g : Graph) (path done done' : List NodeId) : Prop where
  sorted : g.IsSorted done'
  subset : done ⊆ done'
  path : ∀ id ∈ path, id ∈ done' → id ∈ done

theorem Finishes.trans {done'' : List NodeId} (h : g.Finishes path done done')
    (h' : g.Finishes path done' done'') : g.Finishes path done done'' where
  sorted := h'.sorted
  subset := List.Subset.trans h.subset h'.subset
  path id hid hdone := h.path id hid (h'.path id hid hdone)

/-- The searches from several nodes, one after another. -/
theorem forM_finishes (path : List NodeId) {search : NodeId → StateT (List NodeId) (Except GraphError) Unit}
    {ids : List NodeId} (hsearch : ∀ id ∈ ids, ∀ done done', g.IsSorted done →
      (search id).run done = .ok ((), done') → g.Finishes path done done' ∧ id ∈ done')
    (hdone : g.IsSorted done) (h : (ids.forM search).run done = .ok ((), done')) :
    g.Finishes path done done' ∧ ids ⊆ done' := by
  induction ids generalizing done with
  | nil =>
    obtain rfl : done = done' := congrArg Prod.snd (Except.ok.inj h)
    exact ⟨⟨hdone, List.Subset.refl _, fun _ _ h ↦ h⟩, List.nil_subset _⟩
  | cons id ids ih =>
    change (search id).run done >>= _ = _ at h
    cases hfirst : (search id).run done with
    | error e =>
      rw [hfirst] at h
      cases h
    | ok result =>
      rw [hfirst] at h
      obtain ⟨⟨⟩, middle⟩ := result
      obtain ⟨hid, hmem⟩ := hsearch id List.mem_cons_self done middle hdone hfirst
      obtain ⟨hids, hsubset⟩ :=
        ih (fun id hid ↦ hsearch id (List.mem_cons_of_mem _ hid)) hid.sorted h
      exact ⟨hid.trans hids, List.cons_subset.mpr ⟨hids.subset hmem, hsubset⟩⟩

theorem visit_succ (depth : Nat) : g.visit (depth + 1) = g.visitStep (g.visit depth) := by
  funext path id
  rw [visit]
  rfl

theorem run_visitStep (search : List NodeId → NodeId → StateT (List NodeId) (Except GraphError) Unit) :
    (g.visitStep search path id).run done =
      if id ∈ done then .ok ((), done)
      else if id ∈ path then .error (.cycle id)
      else (((g.prerequisites id).forM (search (id :: path))).run done).map fun result ↦
        ((), id :: result.2) := by
  unfold visitStep
  simp only [forIn_yield]
  by_cases hdone : id ∈ done
  · simp only [if_pos hdone]
    simp [hdone]
    rfl
  · by_cases hpath : id ∈ path
    · simp [hdone, hpath]
      rfl
    · simp [hdone, hpath]
      rfl

theorem visit_finishes (hdone : g.IsSorted done)
    (h : (g.visit depth path id).run done = .ok ((), done')) :
    g.Finishes path done done' ∧ id ∈ done' := by
  induction depth generalizing path id done done' with
  | zero => cases h
  | succ depth ih =>
    rw [visit_succ, run_visitStep] at h
    split_ifs at h with hmet hpath
    · obtain rfl : done = done' := congrArg Prod.snd (Except.ok.inj h)
      exact ⟨⟨hdone, List.Subset.refl _, fun _ _ h ↦ h⟩, hmet⟩
    · cases hsearch : ((g.prerequisites id).forM (g.visit depth (id :: path))).run done with
      | error e =>
        rw [hsearch] at h
        cases h
      | ok result =>
        obtain ⟨⟨⟩, middle⟩ := result
        rw [hsearch] at h
        obtain rfl : id :: middle = done' := congrArg Prod.snd (Except.ok.inj h)
        obtain ⟨hmiddle, hsubset⟩ := forM_finishes (id :: path)
          (fun source _ done done' hdone h ↦ ih hdone h) hdone hsearch
        have hid : id ∉ middle := fun h ↦ hmet (hmiddle.path id List.mem_cons_self h)
        refine ⟨⟨⟨hid, hsubset, hmiddle.sorted⟩, ?_, fun other hother hdone ↦ ?_⟩,
          List.mem_cons_self⟩
        · exact List.Subset.trans hmiddle.subset (List.subset_cons_self _ _)
        · refine hmiddle.path other (List.mem_cons_of_mem _ hother) ?_
          exact (List.mem_cons.mp hdone).resolve_left (ne_of_mem_of_not_mem hother hpath)

/-! ## Cycles -/

theorem exists_of_forM_error {e : GraphError}
    {search : NodeId → StateT (List NodeId) (Except GraphError) Unit} {ids : List NodeId}
    (h : (ids.forM search).run done = .error e) :
    ∃ id ∈ ids, ∃ done', (search id).run done' = .error e := by
  induction ids generalizing done with
  | nil => cases h
  | cons id ids ih =>
    change (search id).run done >>= _ = _ at h
    cases hfirst : (search id).run done with
    | error e' =>
      rw [hfirst] at h
      obtain rfl : e' = e := Except.error.inj h
      exact ⟨id, List.mem_cons_self, done, hfirst⟩
    | ok result =>
      rw [hfirst] at h
      obtain ⟨other, hother, done', herror⟩ := ih h
      exact ⟨other, List.mem_cons_of_mem _ hother, done', herror⟩

/-- A search that reports an error, although no calls at a certain depth do, has closed a cycle. -/
theorem cycle_of_visitStep_iterate {e : GraphError}
    (hpath : ∀ other ∈ path, Relation.TransGen g.Precedes id other)
    (h : (g.visitStep^[depth] (fun _ _ ↦ pure ()) path id).run done = .error e) :
    ∃ other, e = .cycle other ∧ Relation.TransGen g.Precedes other other := by
  induction depth generalizing path id done with
  | zero => cases h
  | succ depth ih =>
    rw [Function.iterate_succ_apply', run_visitStep] at h
    split_ifs at h with hmet hcycle
    · exact ⟨id, (Except.error.inj h).symm, hpath id hcycle⟩
    · cases hsearch : ((g.prerequisites id).forM
          (g.visitStep^[depth] (fun _ _ ↦ pure ()) (id :: path))).run done with
      | error e' =>
        rw [hsearch] at h
        obtain rfl : e' = e := Except.error.inj h
        obtain ⟨source, hsource, done', herror⟩ := exists_of_forM_error hsearch
        refine ih (fun other hother ↦ ?_) herror
        rcases List.mem_cons.mp hother with rfl | hother
        · exact .single hsource
        · exact .head hsource (hpath other hother)
      | ok result =>
        rw [hsearch] at h
        cases h

/-! ## Validation -/

theorem isAcyclic_of_validate (h : g.validate = .ok ()) : g.IsAcyclic := by
  intro id hcycle
  have hjoins := joins_of_validate h
  unfold validate at h
  have hfind : g.connections.values.find? (fun c ↦ !g.joins c) = none := by
    simpa using hjoins
  rw [hfind] at h
  cases hsearch : (g.nodes.keys.forM (g.visit (g.nodes.size + 1) [])).run [] with
  | error e =>
    rw [hsearch] at h
    cases h
  | ok result =>
    obtain ⟨⟨⟩, done⟩ := result
    obtain ⟨hdone, hkeys⟩ := forM_finishes [] (fun id _ done done' hdone h ↦ visit_finishes hdone h)
      (show g.IsSorted [] from trivial) hsearch
    have hid : id ∈ g.nodes.keys := by
      obtain ⟨next, hnext, -⟩ := Relation.TransGen.head'_iff.mp hcycle
      exact prerequisites_subset hjoins hnext
    exact (hdone.sorted.ne_of_transGen (hkeys hid) hcycle).2 rfl

/-- A graph that is not valid has a connection that joins no pins, or a cycle. -/
theorem validate_eq_error {e : GraphError} (h : g.validate = .error e) :
    (∃ c ∈ g.connections.values, ¬ g.joins c ∧ e = .danglingConnection c.id) ∨
      ∃ id, e = .cycle id ∧ Relation.TransGen g.Precedes id id := by
  have hvalidate : g.validate =
      g.validateBy (g.visitStep^[g.nodes.size + 1] fun _ _ ↦ pure ()) := by
    change g.validateBy (g.visit (g.nodes.size + 1)) = _
    rw [visit_eq_iterate]
    exact validateBy_iterate (Nat.lt_succ_self _) (Nat.lt_succ_self _) ..
  rw [hvalidate, validateBy] at h
  cases hfind : g.connections.values.find? fun c ↦ !g.joins c with
  | some c =>
    rw [hfind] at h
    have hc := List.find?_some hfind
    exact .inl ⟨c, List.mem_of_find?_eq_some hfind, by simpa using hc, (Except.error.inj h).symm⟩
  | none =>
    rw [hfind] at h
    cases hsearch : (g.nodes.keys.forM
        (g.visitStep^[g.nodes.size + 1] (fun _ _ ↦ pure ()) [])).run [] with
    | error e' =>
      rw [hsearch] at h
      obtain rfl : e' = e := Except.error.inj h
      obtain ⟨id, -, done, herror⟩ := exists_of_forM_error hsearch
      exact .inr (cycle_of_visitStep_iterate (by simp) herror)
    | ok result =>
      rw [hsearch] at h
      cases h

theorem validate_eq_ok_iff :
    g.validate = .ok () ↔ (∀ c ∈ g.connections.values, g.joins c) ∧ g.IsAcyclic := by
  refine ⟨fun h ↦ ⟨joins_of_validate h, isAcyclic_of_validate h⟩, fun ⟨hjoins, hacyclic⟩ ↦ ?_⟩
  cases h : g.validate with
  | ok a => rfl
  | error e =>
    rcases validate_eq_error h with ⟨c, hc, hjoin, -⟩ | ⟨id, -, hcycle⟩
    · exact absurd (hjoins c hc) hjoin
    · exact absurd hcycle (hacyclic id)

end Graph

end ShaderGraph
