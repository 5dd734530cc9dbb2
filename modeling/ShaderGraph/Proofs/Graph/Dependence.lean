import ShaderGraph.Program.Compile
import ShaderGraph.Proofs.Termination.Searches

/-!
# Dependence on a loop

A node depends on a loop if connections lead from the loop to it through no interpolator. The search for
a dependence keeps its verdicts and counts the nodes that it is still visiting as independent. A verdict
that is asked for with right ones at hand is right all the same, in every graph. But a verdict kept on the
way can be wrong, if it was found inside of a cycle that depends on the loop as a whole, and then a later
question takes it over. Where no cycle beside the loop depends on it, all verdicts that are kept are right
and what is evaluated in front of the loop is independent of it.
-/

namespace ShaderGraph

namespace Graph

variable {g : Graph} {target id source : NodeId} {depth : Nat} {path : List NodeId}
  {verdicts : Verdicts}

theorem mem_keys_of_mem_suppliers (h : source ∈ g.suppliers id) : id ∈ g.nodes.keys := by
  unfold suppliers at h
  cases hnode : g.node? id with
  | none => simp [hnode] at h
  | some n => exact mem_keys hnode

/-! ## Right verdicts -/

/-- Verdicts that tell which nodes depend on the target. -/
def Verdicts.Right (g : Graph) (target : NodeId) (verdicts : Verdicts) : Prop :=
  ∀ id found, (id, found) ∈ verdicts → (found = true ↔ g.DependsOn target id)

/-- Verdicts that miss no dependence. -/
def Verdicts.Complete (g : Graph) (target : NodeId) (verdicts : Verdicts) : Prop :=
  ∀ id, (id, false) ∈ verdicts → ¬ g.DependsOn target id

theorem Verdicts.right_iff :
    verdicts.Right g target ↔ verdicts.Sound g target ∧ verdicts.Complete g target := by
  constructor
  · exact fun h ↦ ⟨fun id hid ↦ (h id true hid).mp rfl,
      fun id hid hdepends ↦ Bool.false_ne_true ((h id false hid).mpr hdepends)⟩
  · rintro ⟨hsound, hcomplete⟩ id (_ | _) hid
    · exact iff_of_false Bool.false_ne_true (hcomplete id hid)
    · exact iff_of_true rfl (hsound id hid)

/-- A node that is settled as independent while the nodes of a path are being visited. -/
def Verdicts.Settles (g : Graph) (target : NodeId) (path : List NodeId) (verdicts : Verdicts)
    (id : NodeId) : Prop :=
  (id, false) ∈ verdicts ∨ id ∈ path ∨ ¬ g.DependsOn target id

/-- The nodes found independent are other ones than the target, and what supplies them is settled. -/
def Verdicts.IsClosed (g : Graph) (target : NodeId) (path : List NodeId) (verdicts : Verdicts) :
    Prop :=
  ∀ id, (id, false) ∈ verdicts →
    id ≠ target ∧ ∀ source ∈ g.suppliers id, verdicts.Settles g target path source

theorem Verdicts.Settles.mono {verdicts' : Verdicts} (h : verdicts.Settles g target path id)
    (hsubset : verdicts ⊆ verdicts') : verdicts'.Settles g target path id :=
  h.imp_left fun h ↦ hsubset h

theorem Verdicts.IsClosed.enter (h : verdicts.IsClosed g target path) (id : NodeId) :
    verdicts.IsClosed g target (id :: path) := by
  intro other hother
  obtain ⟨hne, hsettled⟩ := h other hother
  exact ⟨hne, fun source hsource ↦ (hsettled source hsource).imp_right <|
    Or.imp_left (List.mem_cons_of_mem _)⟩

theorem Verdicts.Settles.leave (h : verdicts.Settles g target (id :: path) source) :
    Verdicts.Settles g target path ((id, false) :: verdicts) source := by
  rcases h with hknown | hon | hindependent
  · exact .inl (List.mem_cons_of_mem _ hknown)
  · rcases List.mem_cons.mp hon with rfl | hon
    · exact .inl List.mem_cons_self
    · exact .inr (.inl hon)
  · exact .inr (.inr hindependent)

/-- Once a node has its own verdict, it need not be on the path any more. -/
theorem Verdicts.IsClosed.leave (h : verdicts.IsClosed g target (id :: path)) (hid : id ≠ target)
    (hsuppliers : ∀ source ∈ g.suppliers id, verdicts.Settles g target (id :: path) source) :
    Verdicts.IsClosed g target path ((id, false) :: verdicts) := by
  intro other hother
  rcases List.mem_cons.mp hother with heq | hother
  · obtain ⟨rfl, -⟩ := Prod.mk.inj heq
    exact ⟨hid, fun source hsource ↦ (hsuppliers source hsource).leave⟩
  · obtain ⟨hne, hsettled⟩ := h other hother
    exact ⟨hne, fun source hsource ↦ (hsettled source hsource).leave⟩

/-- A search that finds no dependence leaves a closed set of independent nodes and settles the node. -/
theorem dependsOn_closed (hbudget : Budget g.nodes.keys depth path)
    (h : verdicts.IsClosed g target path)
    (hfalse : ((g.dependsOn target depth path id).run verdicts).1 = false) :
    verdicts ⊆ ((g.dependsOn target depth path id).run verdicts).2 ∧
      Verdicts.IsClosed g target path ((g.dependsOn target depth path id).run verdicts).2 ∧
      Verdicts.Settles g target path ((g.dependsOn target depth path id).run verdicts).2 id := by
  induction depth generalizing path id verdicts with
  | zero => exact absurd hbudget Budget.not_zero
  | succ depth ih =>
    rw [run_dependsOn_succ, verdict_eq_anyM] at hfalse ⊢
    have hid : id ≠ target := fun hid ↦ by
      rw [if_pos hid] at hfalse
      cases hfalse
    rw [if_neg hid] at hfalse ⊢
    cases hlookup : verdicts.lookup id with
    | some known =>
      rw [hlookup] at hfalse
      obtain rfl : known = false := hfalse
      exact ⟨List.Subset.refl _, h, .inl (entry_mem_of_lookup hlookup)⟩
    | none =>
      rw [hlookup] at hfalse
      dsimp only at hfalse ⊢
      by_cases hpath : id ∈ path
      · rw [if_pos hpath]
        exact ⟨List.Subset.refl _, h, .inr (.inl hpath)⟩
      · rw [if_neg hpath] at hfalse ⊢
        -- While the nodes that supply this one are searched, it is on the path.
        let I (done : List NodeId) (verdicts' : Verdicts) : Prop :=
          verdicts ⊆ verdicts' ∧ Verdicts.IsClosed g target (id :: path) verdicts' ∧
            ∀ source ∈ done, Verdicts.Settles g target (id :: path) verdicts' source
        have hstart : I [] verdicts := ⟨List.Subset.refl _, h.enter id, by simp⟩
        have hsearch := forall_of_anyM (I := I)
          (fun done source (hsource : source ∈ g.suppliers id) verdicts' hI hrun ↦ by
            obtain ⟨hsubset, hclosed, hdone⟩ := hI
            obtain ⟨hsubset', hclosed', hsettled⟩ :=
              ih (hbudget.cons (mem_keys_of_mem_suppliers hsource) hpath) hclosed hrun
            refine ⟨List.Subset.trans hsubset hsubset', hclosed', fun other hother ↦ ?_⟩
            rcases List.mem_cons.mp hother with rfl | hother
            · exact hsettled
            · exact (hdone other hother).mono hsubset')
          hstart
        cases hrun : ((g.suppliers id).anyM (g.dependsOn target depth (id :: path))).run verdicts with
        | mk found verdicts' =>
          rw [hrun] at hfalse hsearch
          obtain rfl : found = false := hfalse
          obtain ⟨hsubset, hclosed, hsuppliers⟩ := hsearch rfl
          exact ⟨List.subset_cons_of_subset _ hsubset,
            hclosed.leave hid fun source hsource ↦ hsuppliers source (by simpa using hsource),
            .inl List.mem_cons_self⟩

theorem budget_start (g : Graph) : Budget g.nodes.keys (g.nodes.size + 2) [] :=
  .start (by rw [length_keys]; omega)

theorem Verdicts.right_nil (g : Graph) (target : NodeId) : Verdicts.Right g target [] :=
  fun _ _ h ↦ by cases h

theorem Verdicts.Right.isClosed (h : verdicts.Right g target) : verdicts.IsClosed g target [] := by
  intro id hid
  have hindependent : ¬ g.DependsOn target id := (Verdicts.right_iff.mp h).2 id hid
  rw [dependsOn_iff] at hindependent
  exact ⟨fun heq ↦ hindependent (.inl heq), fun source hsource ↦
    .inr (.inr fun hdepends ↦ hindependent (.inr ⟨source, hsource, hdepends⟩))⟩

theorem Verdicts.IsClosed.not_dependsOn (h : verdicts.IsClosed g target [])
    (hid : (id, false) ∈ verdicts) : ¬ g.DependsOn target id := by
  intro hdepends
  induction hdepends with
  | refl => exact (h target hid).1 rfl
  | tail hsource hsupplies ih =>
    rcases (h _ hid).2 _ hsupplies with hknown | hon | hindependent
    · exact ih hknown
    · cases hon
    · exact hindependent hsource

/-- With right verdicts at hand, the answer of a search is right. -/
theorem dependsOn_eq_true_iff (h : verdicts.Right g target) (id : NodeId) :
    ((g.dependsOn target (g.nodes.size + 2) [] id).run verdicts).1 = true ↔
      g.DependsOn target id := by
  constructor
  · exact (dependsOn_sound (Verdicts.right_iff.mp h).1 _ [] id).2
  · intro hdepends
    by_contra hfalse
    obtain ⟨-, hclosed, hsettled⟩ := dependsOn_closed
      g.budget_start h.isClosed (Bool.eq_false_iff.mpr hfalse)
    rcases hsettled with hknown | hon | hindependent
    · exact hclosed.not_dependsOn hknown hdepends
    · cases hon
    · exact hindependent hdepends

instance (g : Graph) (target id : NodeId) : Decidable (g.DependsOn target id) :=
  decidable_of_iff _ (dependsOn_eq_true_iff (Verdicts.right_nil g target) id)

/-! ## Separate loops -/

/-- A step of dependence that does not lead into the target. -/
def Continues (g : Graph) (target source id : NodeId) : Prop :=
  g.Supplies source id ∧ id ≠ target

/-- No cycle that avoids the target depends on it. -/
def IsSeparate (g : Graph) (target : NodeId) : Prop :=
  ∀ id, Relation.TransGen (g.Continues target) id id → ¬ g.DependsOn target id

/-- The target is separate if the nodes that depend on it can be ranked along the connections. -/
theorem isSeparate_of_rank (rank : NodeId → Nat)
    (h : ∀ id ∈ g.nodes.keys, id ≠ target → ∀ source ∈ g.suppliers id, g.DependsOn target source →
      rank source < rank id) : g.IsSeparate target := by
  intro id hcycle hdepends
  have hrank {id' : NodeId} (hpath : Relation.TransGen (g.Continues target) id id') :
      g.DependsOn target id' ∧ rank id < rank id' := by
    induction hpath with
    | single hstep =>
      exact ⟨hdepends.tail hstep.1, h _ (mem_keys_of_mem_suppliers hstep.1) hstep.2 _ hstep.1 hdepends⟩
    | tail _ hstep ih =>
      exact ⟨ih.1.tail hstep.1,
        Nat.lt_trans ih.2 (h _ (mem_keys_of_mem_suppliers hstep.1) hstep.2 _ hstep.1 ih.1)⟩
  exact Nat.lt_irrefl _ (hrank hcycle).2

theorem Verdicts.Complete.cons (h : verdicts.Complete g target) {found : Bool}
    (hid : found = false → ¬ g.DependsOn target id) :
    Verdicts.Complete g target ((id, found) :: verdicts) := by
  intro other hother
  rcases List.mem_cons.mp hother with heq | hother
  · obtain ⟨rfl, rfl⟩ := Prod.mk.inj heq
    exact hid rfl
  · exact h other hother

/-- Searches for a dependence on a separate target miss none. -/
theorem dependsOn_complete (hseparate : g.IsSeparate target) (id : NodeId)
    (hbudget : Budget g.nodes.keys depth path)
    (hpath : ∀ other ∈ path, Relation.TransGen (g.Continues target) id other)
    (h : verdicts.Complete g target) :
    Verdicts.Complete g target ((g.dependsOn target depth path id).run verdicts).2 ∧
      (((g.dependsOn target depth path id).run verdicts).1 = false → ¬ g.DependsOn target id) := by
  induction depth generalizing path id verdicts with
  | zero => exact absurd hbudget Budget.not_zero
  | succ depth ih =>
    rw [run_dependsOn_succ, verdict_eq_anyM]
    split
    · exact ⟨h, fun htrue ↦ by cases htrue⟩
    · next hid =>
      split
      · next known hknown =>
        refine ⟨h, fun hfalse ↦ h id ?_⟩
        obtain rfl : known = false := hfalse
        exact entry_mem_of_lookup hknown
      · split
        · next hmet =>
          -- The node closes a cycle, which does not depend on the target.
          exact ⟨h, fun _ ↦ hseparate id (hpath id hmet)⟩
        · next hmet =>
          have hsource (source : NodeId) (hsource : source ∈ g.suppliers id) (verdicts : Verdicts)
              (h : verdicts.Complete g target) :
              Verdicts.Complete g target
                ((g.dependsOn target depth (id :: path) source).run verdicts).2 ∧
              (((g.dependsOn target depth (id :: path) source).run verdicts).1 = false →
                ¬ g.DependsOn target source) := by
            refine ih source (hbudget.cons (mem_keys_of_mem_suppliers hsource) hmet)
              (fun other hother ↦ ?_) h
            have hstep : g.Continues target source id := ⟨hsource, hid⟩
            rcases List.mem_cons.mp hother with rfl | hother
            · exact .single hstep
            · exact .head hstep (hpath other hother)
          have hsearch := anyM_preserves (I := Verdicts.Complete g target)
            (fun source hmem verdicts h ↦ (hsource source hmem verdicts h).1) h
          have hall := forall_of_anyM (I := fun done verdicts ↦
              Verdicts.Complete g target verdicts ∧ ∀ source ∈ done, ¬ g.DependsOn target source)
            (fun done source hmem verdicts ⟨h, hdone⟩ hfalse ↦
              have hcomplete := hsource source hmem verdicts h
              ⟨hcomplete.1, List.forall_mem_cons.mpr ⟨hcomplete.2 hfalse, hdone⟩⟩)
            (show _ ∧ ∀ source ∈ [], _ from ⟨h, by simp⟩)
          cases hrun : ((g.suppliers id).anyM (g.dependsOn target depth (id :: path))).run
              verdicts with
          | mk found verdicts' =>
            rw [hrun] at hsearch hall
            have hindependent (hfalse : found = false) : ¬ g.DependsOn target id := by
              rw [dependsOn_iff]
              rintro (heq | ⟨source, hmem, hdepends⟩)
              · exact hid heq
              · exact (hall hfalse).2 source (by simpa using hmem) hdepends
            exact ⟨hsearch.cons hindependent, hindependent⟩

/-- Searches for a dependence on a separate target keep right verdicts. -/
theorem dependsOn_right (hseparate : g.IsSeparate target) (h : verdicts.Right g target)
    (id : NodeId) :
    Verdicts.Right g target ((g.dependsOn target (g.nodes.size + 2) [] id).run verdicts).2 := by
  rw [Verdicts.right_iff] at h ⊢
  exact ⟨(dependsOn_sound h.1 _ [] id).1,
    (dependsOn_complete hseparate id g.budget_start (by simp) h.2).1⟩

/-- A search that has found independent outputs only. -/
structure FrontierSearch.Independent (g : Graph) (target : NodeId) (s : FrontierSearch) : Prop where
  found : ∀ o ∈ s.found, ¬ g.DependsOn target o.node
  verdicts : s.verdicts.Right g target

theorem frontierFrom_independent (hseparate : g.IsSeparate target) {input : PinId}
    {s : FrontierSearch} (h : s.Independent g target) :
    FrontierSearch.Independent g target ((g.frontierFrom target depth input).run s).2 := by
  induction depth generalizing input s with
  | zero => exact h
  | succ depth ih =>
    rw [run_frontierFrom_succ]
    split
    · exact h
    · next c hc =>
      split
      · exact h
      · split
        · exact ⟨h.found, h.verdicts⟩
        · have hright := dependsOn_right hseparate h.verdicts c.fromNode
          have hdepends := dependsOn_eq_true_iff h.verdicts c.fromNode
          cases hrun : (g.dependsOn target (g.nodes.size + 2) [] c.fromNode).run s.verdicts with
          | mk depends verdicts =>
            rw [hrun] at hright hdepends
            cases depends with
            | false =>
              refine ⟨fun o ho ↦ ?_, hright⟩
              rcases List.mem_append.mp ho with ho | ho
              · exact h.found o ho
              · obtain rfl := List.mem_singleton.mp ho
                exact fun hfalse ↦ by cases hdepends.mpr hfalse
            | true =>
              dsimp only
              rw [if_pos rfl]
              split
              · exact ⟨h.found, hright⟩
              · exact forM_preserves (fun p _ s hs ↦ ih hs) ⟨h.found, hright⟩

/-- A search that starts with right verdicts answers right, in every graph. If no cycle that avoids
the loop depends on it, then the search leaves right verdicts, and what is evaluated in front of the loop
does not depend on it. -/
theorem frontier_independent (g : Graph) (loop : Node) :
    (∀ verdicts : Verdicts, verdicts.Right g loop.id → ∀ id,
      ((g.dependsOn loop.id (g.nodes.size + 2) [] id).run verdicts).1 = true ↔
        g.DependsOn loop.id id) ∧
    (g.IsSeparate loop.id →
      (∀ verdicts : Verdicts, verdicts.Right g loop.id → ∀ id,
        Verdicts.Right g loop.id
          ((g.dependsOn loop.id (g.nodes.size + 2) [] id).run verdicts).2) ∧
      ∀ pins, ∀ o ∈ g.frontier loop pins, ¬ g.DependsOn loop.id o.node) := by
  refine ⟨fun verdicts h id ↦ dependsOn_eq_true_iff h id, fun hseparate ↦
    ⟨fun verdicts h id ↦ ?_, fun pins o ho ↦ ?_⟩⟩
  · exact dependsOn_right hseparate h id
  · refine (forM_preserves (I := FrontierSearch.Independent g loop.id) (fun pin _ s hs ↦ ?_)
      ⟨by simp, Verdicts.right_nil g loop.id⟩).found o ho
    split
    · exact hs
    · exact frontierFrom_independent hseparate hs

end Graph

/-- A loop, the body of which uses the output of another one. -/
def loopsInARow : Graph :=
  .numbered
    [.pixelOutput {}, .iterate 0 3, .iterate 0 3, .arithmetic .add, .arithmetic .add,
      .uniform "A" .scalar]
    [⟨1, "Output", 0, "Input"⟩, ⟨3, "Output", 1, "Input"⟩, ⟨1, "Output", 3, "Input1"⟩,
      ⟨2, "Output", 3, "Input2"⟩, ⟨4, "Output", 2, "Input"⟩, ⟨2, "Output", 4, "Input1"⟩,
      ⟨5, "Output", 4, "Input2"⟩]

/-- The other loop is evaluated in front of the first one, on which it does not depend. -/
theorem frontier_independent_loopsInARow :
    ∃ loop, loopsInARow.node? (Graph.nodeNumber 1) = some loop ∧ loopsInARow.IsSeparate loop.id ∧
      loopsInARow.frontier loop ["Input", "Condition"] =
        [⟨Graph.nodeNumber 2, Graph.pinNumber 2 .output 1⟩] ∧
      ¬ loopsInARow.DependsOn loop.id (Graph.nodeNumber 2) := by
  obtain ⟨loop, hloop⟩ : ∃ n, loopsInARow.node? (Graph.nodeNumber 1) = some n :=
    Option.isSome_iff_exists.mp (by decide +kernel)
  have hid : ∀ n ∈ loopsInARow.node? (Graph.nodeNumber 1), n.id = Graph.nodeNumber 1 := by
    decide +kernel
  -- From the loop connections lead to its body and to the output of the graph.
  let rank (id : NodeId) : Nat :=
    if id = Graph.nodeNumber 1 then 1 else if id = Graph.nodeNumber 2 then 0 else 2
  have hseparate : loopsInARow.IsSeparate loop.id := by
    rw [hid loop hloop]
    exact Graph.isSeparate_of_rank rank (by decide +kernel)
  have hfrontier : ∀ n ∈ loopsInARow.node? (Graph.nodeNumber 1),
      loopsInARow.frontier n ["Input", "Condition"] =
        [⟨Graph.nodeNumber 2, Graph.pinNumber 2 .output 1⟩] := by
    decide +kernel
  refine ⟨loop, hloop, hseparate, hfrontier loop hloop, ?_⟩
  refine ((Graph.frontier_independent loopsInARow loop).2 hseparate).2 ["Input", "Condition"]
    ⟨Graph.nodeNumber 2, Graph.pinNumber 2 .output 1⟩ ?_
  rw [hfrontier loop hloop]
  exact List.mem_singleton.mpr rfl

/-- A loop in the body of another one, which starts from the counter of the outer loop. -/
def nestedLoops : Graph :=
  .numbered [.pixelOutput {}, .iterate 0 3, .iterate 0 3, .arithmetic .add, .uniform "A" .scalar]
    [⟨1, "Output", 0, "Input"⟩, ⟨2, "Output", 1, "Input"⟩, ⟨3, "Output", 2, "Input"⟩,
      ⟨2, "N", 3, "Input1"⟩, ⟨4, "Output", 3, "Input2"⟩, ⟨1, "N", 2, "Initial"⟩]

/-- The body of the inner loop depends on the outer one, and yet it is evaluated in front of both. -/
theorem mem_frontier_nestedLoops :
    nestedLoops.Built ∧ nestedLoops.validate = .ok () ∧
      (∃ loop, nestedLoops.node? (Graph.nodeNumber 1) = some loop ∧ loop.id = Graph.nodeNumber 1 ∧
        ⟨Graph.nodeNumber 3, Graph.pinNumber 3 .output 0⟩ ∈
          nestedLoops.frontier loop ["Input", "Condition"]) ∧
      nestedLoops.DependsOn (Graph.nodeNumber 1) (Graph.nodeNumber 3) ∧
      (compile {} nestedLoops).isOk = false := by
  have hfrontier : ∀ n ∈ nestedLoops.node? (Graph.nodeNumber 1), n.id = Graph.nodeNumber 1 ∧
      ⟨Graph.nodeNumber 3, Graph.pinNumber 3 .output 0⟩ ∈
        nestedLoops.frontier n ["Input", "Condition"] := by
    decide +kernel
  obtain ⟨loop, hloop⟩ : ∃ n, nestedLoops.node? (Graph.nodeNumber 1) = some n :=
    Option.isSome_iff_exists.mp (by decide +kernel)
  exact ⟨Graph.built_numbered _ _, by decide +kernel, ⟨loop, hloop, hfrontier loop hloop⟩,
    by decide +kernel, by decide +kernel⟩

end ShaderGraph
