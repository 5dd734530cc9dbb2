import Mathlib.Tactic.Choose
import ShaderGraph.Proofs.Source.Lines
import ShaderGraph.Proofs.Upstream.Program

/-!
# Linkage of the stages

Values pass from the vertex stage to the pixel stage in numbered slots. An interpolator that feeds the
pixel stage is given its slot when it is first met, and keeps it in all scopes. A slot is declared once
as an output of the vertex stage and once as an input of the pixel stage, under the same type.
-/

namespace ShaderGraph

open EmitM

/-- The output pin of an interpolator. -/
def Graph.IsInterpolatorPin (g : Graph) (id : NodeId) (pin : PinId) : Prop :=
  ∃ n p, g.node? id = some n ∧ n.kind = .interpolator ∧ n.output? "Output" = some p ∧ p.id = pin

namespace EmitState

/-- The run leaves the slots alone, and binds nothing new in the pixel stage. -/
structure KeepsSlots (s t : EmitState) : Prop where
  interpolators : t.interpolators = s.interpolators
  boundPins : t.pixel.boundPins ⊆ s.pixel.boundPins
  outer : t.pixel.outer = s.pixel.outer
  outputs : t.vertex.outputs = s.vertex.outputs
  inputs : t.pixel.inputs = s.pixel.inputs

/-- The declarations of slots of the given types: those of the outputs of the vertex stage, and those
of the inputs of the pixel stage. -/
def slotDeclarations (d : Dialect) (types : List ValueType) : List (String × String) :=
  types.mapIdx fun slot t ↦ d.interpolatorDeclarations t (interpolatorName slot) slot

/-- Each slot belongs to an interpolator of its own and is declared in both stages. -/
structure Linked (g : Graph) (d : Dialect) (s : EmitState) : Prop where
  slots : s.pixel.outer.length = s.interpolators
  distinct : (s.pixel.outer.map Prod.fst).Nodup
  owners : ∀ pin ∈ s.pixel.outer.map Prod.fst, ∃ id, g.IsInterpolatorPin id pin
  declared : ∃ types : List ValueType, types.length = s.interpolators ∧
    (∀ t ∈ types, t.isVector) ∧
    s.vertex.outputs = .ofLines ((slotDeclarations d types).map Prod.fst) ∧
    s.pixel.inputs = .ofLines ((slotDeclarations d types).map Prod.snd)

namespace KeepsSlots

variable {s t u : EmitState}

theorem refl (s : EmitState) : s.KeepsSlots s :=
  ⟨rfl, List.Subset.refl _, rfl, rfl, rfl⟩

theorem trans (h : s.KeepsSlots t) (h' : t.KeepsSlots u) : s.KeepsSlots u :=
  ⟨h'.interpolators.trans h.interpolators, List.Subset.trans h'.boundPins h.boundPins,
    h'.outer.trans h.outer, h'.outputs.trans h.outputs, h'.inputs.trans h.inputs⟩

theorem of_move {n : Node} (h : Move n s t) (hvertex : s.stage = .vertex) : s.KeepsSlots t := by
  refine ⟨h.interpolators, fun pin hpin ↦ ?_, h.outer .pixel, h.outputs, h.inputs⟩
  obtain hpin | ⟨hstage, -⟩ := h.boundPins .pixel pin hpin
  · exact hpin
  · rw [hvertex] at hstage
    cases hstage

end KeepsSlots

namespace Linked

variable {g : Graph} {d : Dialect} {s t : EmitState}

theorem congr (h : s.Linked g d) (hinterpolators : t.interpolators = s.interpolators)
    (houter : t.pixel.outer = s.pixel.outer) (houtputs : t.vertex.outputs = s.vertex.outputs)
    (hinputs : t.pixel.inputs = s.pixel.inputs) : t.Linked g d := by
  refine ⟨?_, ?_, ?_, ?_⟩
  · rw [houter, hinterpolators]
    exact h.slots
  · rw [houter]
    exact h.distinct
  · rw [houter]
    exact h.owners
  · rw [hinterpolators, houtputs, hinputs]
    exact h.declared

theorem move {n : Node} (h : s.Linked g d) (hmove : Move n s t) : t.Linked g d :=
  h.congr hmove.interpolators (hmove.outer .pixel) hmove.outputs hmove.inputs

/-- A value of an interpolator that has no slot is carried over in the next one. -/
theorem carry (h : s.Linked g d) {n : Node} {p : Pin} {v : Variable} (hn : g.node? n.id = some n)
    (hkind : n.kind = .interpolator) (hp : n.output? "Output" = some p)
    (hnew : p.id ∉ s.pixel.outer.map Prod.fst) (hvector : v.type.isVector) :
    (s.carry d p.id v).Linked g d := by
  have houter : (s.carry d p.id v).pixel.outer.map Prod.fst = s.pixel.outer.map Prod.fst ++ [p.id] :=
    List.map_append
  refine ⟨?_, ?_, fun pin hpin ↦ ?_, ?_⟩
  · change (s.pixel.outer ++ [_]).length = s.interpolators + 1
    rw [List.length_append, h.slots]
    rfl
  · rw [houter]
    exact List.nodup_append.mpr ⟨h.distinct, List.nodup_singleton _, fun a ha b hb hab ↦
      hnew (List.mem_singleton.mp hb ▸ hab ▸ ha)⟩
  · rw [houter] at hpin
    rcases List.mem_append.mp hpin with hpin | hpin
    · exact h.owners pin hpin
    · exact ⟨n.id, n, p, hn, hkind, hp, (List.mem_singleton.mp hpin).symm⟩
  · obtain ⟨types, hlength, hvectors, houtputs, hinputs⟩ := h.declared
    have hslots : slotDeclarations d (types ++ [v.type]) = slotDeclarations d types ++
        [d.interpolatorDeclarations v.type (interpolatorName s.interpolators) s.interpolators] := by
      rw [slotDeclarations, List.mapIdx_append, ← hlength]
      simp [slotDeclarations]
    have hvertex : (s.carry d p.id v).vertex.outputs = s.vertex.outputs.line
        (d.interpolatorDeclarations v.type (interpolatorName s.interpolators)
          s.interpolators).1 := by
      unfold EmitState.carry EmitState.modifyShader StageShader.modifyBody StageShader.modifyBlock
      dsimp only
      split <;> rfl
    refine ⟨types ++ [v.type], ?_, fun t ht ↦ ?_, ?_, ?_⟩
    · rw [List.length_append, hlength]
      rfl
    · rcases List.mem_append.mp ht with ht | ht
      · exact hvectors t ht
      · rwa [List.mem_singleton.mp ht]
    · rw [hvertex, houtputs, CodeBuffer.line_ofLines, hslots, List.map_append]
      rfl
    · change s.pixel.inputs.line _ = _
      rw [hinputs, CodeBuffer.line_ofLines, hslots, List.map_append]
      rfl

end Linked

end EmitState

/-! ## Runs of emitters -/

/-- The demand keeps the stages linked, and leaves the slots alone in the vertex stage. -/
def Demand.IsLinking (env : EmitEnv) (demand : Demand) : Prop :=
  ∀ id pin s v t, Returns env (demand id pin) s v t →
    (s.stage = .vertex → s.KeepsSlots t) ∧
      (s.Linked env.graph env.dialect → t.Linked env.graph env.dialect)

section Runs

variable {env : EmitEnv} {demand : Demand} {n : Node} {s t : EmitState}

theorem Moves.linked (hstage : demand.KeepsStage env) (hdemand : demand.IsLinking env)
    {pins : List String} (hmoves : Moves env demand n pins s t) :
    (s.stage = .vertex → s.KeepsSlots t) ∧
      (s.Linked env.graph env.dialect → t.Linked env.graph env.dialect) := by
  induction hmoves with
  | refl => exact ⟨fun _ ↦ .refl _, id⟩
  | move hfirst hmove ih =>
    exact ⟨fun hvertex ↦ (ih.1 hvertex).trans (.of_move hmove
      ((hfirst.stage_eq hstage).trans hvertex)), fun h ↦ (ih.2 h).move hmove⟩
  | hoist hfirst _ hrun ih =>
    obtain ⟨hkeeps, hlinked⟩ := hdemand _ _ _ _ _ hrun
    exact ⟨fun hvertex ↦ (ih.1 hvertex).trans (hkeeps ((hfirst.stage_eq hstage).trans hvertex)),
      fun h ↦ hlinked (ih.2 h)⟩
  | read hfirst hread ih =>
    obtain ⟨_, _, ⟨_, _, _, _, hrun⟩ | ⟨_, rfl, _⟩⟩ := inputValue?_cases hread
    · obtain ⟨hkeeps, hlinked⟩ := hdemand _ _ _ _ _ hrun
      exact ⟨fun hvertex ↦ (ih.1 hvertex).trans (hkeeps ((hfirst.stage_eq hstage).trans hvertex)),
        fun h ↦ hlinked (ih.2 h)⟩
    · exact ih

/-- A run of an interpolator that binds a pin for the first time gives it a slot. -/
theorem NodeRun.linked (hstage : demand.KeepsStage env) (hdemand : demand.IsLinking env)
    (hrun : NodeRun env demand n s t) (hn : env.graph.node? n.id = some n)
    (hbinds : n.kind = .interpolator →
      ∃ pin, s.binding? pin = none ∧ (t.binding? pin).isSome) :
    (s.stage = .vertex → s.KeepsSlots t) ∧
      (s.Linked env.graph env.dialect → t.Linked env.graph env.dialect) := by
  cases hrun with
  | within _ hmoves => exact hmoves.linked hstage hdemand
  | @across t w p hkind hpixel hread hvector hp =>
    refine ⟨fun hvertex ↦ absurd (hvertex.symm.trans hpixel) (by simp), fun h ↦ ?_⟩
    have hstart : ({ s with stage := .vertex } : EmitState).Linked env.graph env.dialect :=
      h.congr rfl rfl rfl rfl
    have hkeeps : s.KeepsSlots t ∧ t.Linked env.graph env.dialect := by
      obtain ⟨_, _, ⟨_, _, _, _, hvalue⟩ | ⟨_, rfl, _⟩⟩ := inputValue?_cases hread
      · obtain ⟨hkeeps, hlinked⟩ := hdemand _ _ _ _ _ hvalue
        have hkeeps := hkeeps rfl
        exact ⟨⟨hkeeps.interpolators, hkeeps.boundPins, hkeeps.outer, hkeeps.outputs,
          hkeeps.inputs⟩, hlinked hstart⟩
      · exact ⟨⟨rfl, List.Subset.refl _, rfl, rfl, rfl⟩, hstart⟩
    -- The pin that is bound in the end is that of the interpolator.
    obtain ⟨pin, hnone, hbound⟩ := hbinds hkind
    have hfree : pin ∉ s.pixel.boundPins := by
      rw [EmitState.binding?, hpixel] at hnone
      have hnone : s.pixel.binding? pin = none := hnone
      rw [← StageShader.isSome_binding?_iff, hnone]
      simp
    have hpin : pin ∈ (t.carry env.dialect p.id w).pixel.boundPins :=
      StageShader.isSome_binding?_iff.mp hbound
    have hsame : pin = p.id := by
      have hpin : pin ∈ t.pixel.bindings.map Prod.fst ++
          (t.pixel.outer ++ [(p.id, _)]).map Prod.fst := hpin
      rw [List.map_append, ← List.append_assoc] at hpin
      rcases List.mem_append.mp hpin with hpin | hpin
      · exact absurd (hkeeps.1.boundPins hpin) hfree
      · exact List.mem_singleton.mp hpin
    refine hkeeps.2.carry hn hkind hp (fun hmem ↦ hfree ?_) hvector
    rw [hsame]
    exact List.mem_append_right _ (hkeeps.1.outer ▸ hmem)

theorem evaluate_isLinking (hg : env.graph.Consistent) : Demand.IsLinking env evaluate := by
  refine evaluate_induction (P := fun _ _ s _ t ↦ (s.stage = .vertex → s.KeepsSlots t) ∧
    (s.Linked env.graph env.dialect → t.Linked env.graph env.dialect))
      (fun _ _ s _ _ ↦ ⟨fun _ ↦ .refl s, id⟩) ?_
  intro demand hstage hdemand id pin n s v u hn hnone _ hrun hbound
  obtain rfl := hg.nodes _ _ hn
  obtain ⟨hkeeps, hlinked⟩ := hrun.linked hstage hdemand hn fun _ ↦
    ⟨pin, hnone, Option.isSome_of_mem hbound⟩
  refine ⟨fun hvertex ↦ ?_, fun h ↦ ?_⟩
  · have hkeeps := hkeeps hvertex
    exact ⟨hkeeps.interpolators, hkeeps.boundPins, hkeeps.outer, hkeeps.outputs, hkeeps.inputs⟩
  · exact (hlinked (h.congr rfl rfl rfl rfl)).congr rfl rfl rfl rfl

theorem terminalRun_linked (hg : env.graph.Consistent) (hrun : TerminalRun env n s t)
    (hn : n ∈ env.graph.nodes.values) (hkind : n.kind ≠ .interpolator)
    (h : s.Linked env.graph env.dialect) : t.Linked env.graph env.dialect := by
  obtain ⟨u, hrun, rfl⟩ := hrun
  have hlinked := ((nodeRun_of_returns evaluate_keepsStage hrun).linked evaluate_keepsStage
    (evaluate_isLinking hg) (hg.mem_nodes_iff.mp hn) fun h ↦ absurd h hkind).2
  exact (hlinked (h.congr rfl rfl rfl rfl)).congr rfl rfl rfl rfl

theorem terminalRuns_linked (hg : env.graph.Consistent) {ns : List Node}
    (hrun : TerminalRuns env ns s t)
    (hns : ∀ n ∈ ns, n ∈ env.graph.nodes.values ∧ n.kind ≠ .interpolator)
    (h : s.Linked env.graph env.dialect) : t.Linked env.graph env.dialect := by
  induction hrun with
  | nil => exact h
  | cons hrun _ ih =>
    obtain ⟨hn, hkind⟩ := hns _ List.mem_cons_self
    exact ih (fun n hn ↦ hns n (List.mem_cons_of_mem _ hn)) (terminalRun_linked hg hrun hn hkind h)

end Runs

theorem emission_linked {settings : Settings} {g : Graph} {s : EmitState} (hg : g.Consistent)
    (h : emission settings g = .ok s) : s.Linked g settings.backend.dialect := by
  obtain ⟨pixelOutput, t, u, hterminal, hpixel, hvertex, rfl⟩ := emission_runs h
  have hstart : ({} : EmitState).Linked g settings.backend.dialect :=
    ⟨rfl, List.nodup_nil, by simp, [], rfl, by simp, rfl, rfl⟩
  have hne (n : Node) (p : NodeKind → Bool) (hp : p .interpolator = false) (hkind : p n.kind) :
      n.kind ≠ .interpolator := fun heq ↦ by
    rw [heq, hp] at hkind
    cases hkind
  have hfirst := terminalRun_linked hg hpixel (Graph.terminal_mem hterminal)
    (hne _ _ rfl (Graph.isPixelOutput_of_terminal hterminal)) hstart
  have hlast := terminalRuns_linked hg hvertex (fun n hn ↦
    ⟨(List.mem_filter.mp hn).1, hne _ _ rfl (List.mem_filter.mp hn).2⟩)
      (hfirst.congr rfl rfl rfl rfl)
  exact hlast.congr rfl rfl rfl rfl

/-- The interpolators that feed the pixel stage. -/
def Graph.FeedsAsInterpolator (g : Graph) (id : NodeId) : Prop :=
  g.FeedsPixel id ∧ ∃ n, g.node? id = some n ∧ n.kind = .interpolator

/-- The slots belong to the interpolators that feed the pixel stage. -/
theorem Graph.Demanded.slots {g : Graph} {done : ShaderStage → Set NodeId} {s : EmitState}
    {d : Dialect} (h : g.Demanded done s) (hlinked : s.Linked g d) :
    ∃ ids : List NodeId, ids.Nodup ∧ ids.length = s.interpolators ∧
      ∀ id, id ∈ ids ↔ g.FeedsAsInterpolator id := by
  have hsame {id id' : NodeId} {pin : PinId} (hid : g.HasOutput id pin)
      (hid' : g.HasOutput id' pin) : id = id' := by
    obtain ⟨n, p, hn, hp, rfl⟩ := hid
    obtain ⟨n', p', hn', hp', heq⟩ := hid'
    have hnode := h.wired.node_eq (OrderedMap.mem_values_of_get? hn)
      (OrderedMap.mem_values_of_get? hn') (List.mem_append_right _ hp) (List.mem_append_right _ hp')
      heq.symm
    subst hnode
    exact (h.wired.consistent.nodes _ _ hn).symm.trans (h.wired.consistent.nodes _ _ hn')
  choose! owner howner using hlinked.owners
  have houtput {pin : PinId} (hpin : pin ∈ s.pixel.outer.map Prod.fst) :
      g.HasOutput (owner pin) pin := by
    obtain ⟨n, p, hn, -, hp, hid⟩ := howner pin hpin
    exact ⟨n, p, hn, Node.mem_outputs hp, hid⟩
  refine ⟨(s.pixel.outer.map Prod.fst).map owner, ?_, ?_, fun id ↦ ⟨fun hmem ↦ ?_, fun hfeeds ↦ ?_⟩⟩
  · refine (List.nodup_map_iff_inj_on hlinked.distinct).mpr fun pin hpin pin' hpin' heq ↦ ?_
    obtain ⟨n, p, hn, -, hp, hid⟩ := howner pin hpin
    obtain ⟨n', p', hn', -, hp', hid'⟩ := howner pin' hpin'
    rw [heq, hn'] at hn
    obtain rfl := Option.some.inj hn
    obtain rfl := Option.some.inj (hp.symm.trans hp')
    exact hid.symm.trans hid'
  · rw [List.length_map, List.length_map, hlinked.slots]
  · obtain ⟨pin, hpin, rfl⟩ := List.mem_map.mp hmem
    obtain ⟨id, hdone, houtput'⟩ := h.covered.bound .pixel pin (List.mem_append_right _ hpin)
    obtain ⟨n, p, hn, hkind, -⟩ := howner pin hpin
    obtain rfl := hsame (houtput hpin) houtput'
    exact ⟨h.covered.feeds _ hdone, n, hn, hkind⟩
  · obtain ⟨hfeeds, m, hm, hmkind⟩ := hfeeds
    rcases h.feedsPixel hfeeds with hdone | ⟨m', value, hm', hscalar⟩
    · obtain ⟨q, hq, hmem⟩ := h.covered.crossed id hdone m hm
        (NodeKind.isInterpolator_iff.mpr hmkind)
      exact List.mem_map.mpr
        ⟨q.id, hmem, hsame (houtput hmem) ⟨m, q, hm, Node.mem_outputs hq, rfl⟩⟩
    · obtain rfl := Option.some.inj (hm.symm.trans hm')
      rw [hmkind] at hscalar
      cases hscalar

/-- In a compiled program the stages are linked by one slot for each interpolator that feeds the pixel
stage. The vertex stage declares the slots as its outputs and the pixel stage declares them as its
inputs, under the same types and in the same order, and nothing else. If the names that the author
gave are words, the vertex stage writes each slot once, outside of all blocks. -/
theorem compile_linkage {settings : Settings} {g : Graph} {a : Artifact} (hbuilt : g.Built)
    (hlaidOut : g.IsLaidOut) (h : compile settings g = .ok a) :
    ∃ (s : EmitState) (ids : List NodeId) (types : List ValueType),
      emission settings g = .ok s ∧ a = s.artifact settings ∧ ids.Nodup ∧
      (∀ id, id ∈ ids ↔ g.FeedsAsInterpolator id) ∧
      a.interpolatorCount = UInt32.ofNat ids.length ∧ types.length = ids.length ∧
      (∀ t ∈ types, t.isVector) ∧
      s.vertex.outputs =
        .ofLines ((EmitState.slotDeclarations settings.backend.dialect types).map Prod.fst) ∧
      s.pixel.inputs =
        .ofLines ((EmitState.slotDeclarations settings.backend.dialect types).map Prod.snd) ∧
      ((∀ name ∈ g.userNames, IsWord name) → slotAssignments 0 (tokens s.vertex.main.text) =
        (List.range ids.length).map fun slot ↦ (0, interpolatorName slot)) := by
  obtain ⟨s, hemission, rfl⟩ := compile_eq_ok_iff.mp h
  obtain ⟨done, hdemanded⟩ := Graph.emission_demanded hbuilt hlaidOut hemission
  have hlinked := emission_linked hbuilt.consistent hemission
  obtain ⟨ids, hnodup, hlength, hids⟩ := hdemanded.slots hlinked
  obtain ⟨types, htypes, hvectors, houtputs, hinputs⟩ := hlinked.declared
  refine ⟨s, ids, types, hemission, rfl, hnodup, hids, ?_, htypes.trans hlength.symm, hvectors,
    houtputs, hinputs, fun hnames ↦ ?_⟩
  · rw [hlength]
    rfl
  · rw [hlength]
    exact emission_slotAssignments hnames hemission

theorem compile_linkage_loopInBranch :
    loopInBranch.Built ∧ loopInBranch.IsLaidOut ∧ ∃ a, compile {} loopInBranch = .ok a ∧
      ∃ (s : EmitState) (ids : List NodeId) (types : List ValueType),
        emission {} loopInBranch = .ok s ∧ a = s.artifact {} ∧ ids.Nodup ∧
        (∀ id, id ∈ ids ↔ loopInBranch.FeedsAsInterpolator id) ∧
        a.interpolatorCount = UInt32.ofNat ids.length ∧ types.length = ids.length ∧
        (∀ t ∈ types, t.isVector) ∧
        s.vertex.outputs =
          .ofLines ((EmitState.slotDeclarations Backend.glsl.dialect types).map Prod.fst) ∧
        s.pixel.inputs =
          .ofLines ((EmitState.slotDeclarations Backend.glsl.dialect types).map Prod.snd) ∧
        ((∀ name ∈ loopInBranch.userNames, IsWord name) →
          slotAssignments 0 (tokens s.vertex.main.text) =
            (List.range ids.length).map fun slot ↦ (0, interpolatorName slot)) := by
  have hbuilt : loopInBranch.Built := Graph.built_numbered _ _
  have hlaidOut : loopInBranch.IsLaidOut := by decide +kernel
  obtain ⟨a, h⟩ := exists_compile_loopInBranch
  exact ⟨hbuilt, hlaidOut, a, h, compile_linkage hbuilt hlaidOut h⟩

/-- A graph with a parameter whose name writes the first slot. -/
def forgedSlot : Graph :=
  .numbered [.pixelOutput {}, .interpolator, .negate, .uniform "w; Attr0 = w" .vec4]
    [⟨1, "Output", 0, "Input"⟩, ⟨2, "Output", 1, "Input"⟩, ⟨3, "Output", 2, "Input"⟩]

/-- Names that are no words are spelled as they are, and may write a slot once more. -/
theorem slotAssignments_forgedSlot :
    forgedSlot.Built ∧ forgedSlot.IsLaidOut ∧
      ∃ s, emission {} forgedSlot = .ok s ∧ s.interpolators = 1 ∧
        slotAssignments 0 (tokens s.vertex.main.text) = [(0, "Attr0"), (0, "Attr0")] := by
  refine ⟨Graph.built_numbered _ _, by decide +kernel, ?_⟩
  have hrun : ((emission {} forgedSlot).map fun s ↦
      (s.interpolators, slotAssignments 0 (tokens s.vertex.main.text))).toOption =
        some (1, [(0, "Attr0"), (0, "Attr0")]) := by
    decide +kernel
  obtain ⟨s, hs, hparts⟩ := exists_ok_of_map hrun
  obtain ⟨hcount, hslots⟩ := Prod.mk.inj hparts
  exact ⟨s, hs, hcount, hslots⟩

end ShaderGraph
