import ShaderGraph.Proofs.Layout.Neighbours
import ShaderGraph.Proofs.Layout.Steps
import ShaderGraph.Proofs.Scope.Program

/-!
# Layout of compiled programs

Every emission leaves laid-out bodies, and the entry point of an assembled source holds the lines of the
body of its stage, so that the attributes in a source are attached to branches and loops. The exception
is a switch without cases that hints at a branch: its attribute is left in front of a bare block.
-/

namespace ShaderGraph

open EmitM Emitter

/-- The hint of a switch without cases. -/
def NodeKind.caselessHint? : NodeKind → Option BranchHint
  | .switch [] hint => some hint
  | _ => none

/-- No switch without cases hints at a branch. -/
def Graph.HintsAtCases (g : Graph) : Prop :=
  ∀ n ∈ g.nodes.values, ∀ hint ∈ n.kind.caselessHint?, hint = .auto

instance (g : Graph) : Decidable g.HintsAtCases :=
  inferInstanceAs (Decidable (∀ n ∈ g.nodes.values, ∀ hint ∈ n.kind.caselessHint?, hint = .auto))

theorem Graph.HintsAtCases.switch {g : Graph} (h : g.HintsAtCases) {n : Node}
    (hn : n ∈ g.nodes.values) (hint : BranchHint) (hkind : n.kind = .switch [] hint) :
    hint = .auto :=
  h n hn hint (by rw [hkind]; rfl)

section Evaluation

variable {env : EmitEnv} {demand : Demand} {n : Node} {ns : List Node} {H K : Held}
  {s t : EmitState} {Γ : Visible} {T : PinId → Prop} {types base : List String}

theorem Steps.isLaidOut (hscoped : demand.IsScoped env T types base n)
    (hdemand : demand.IsLaidOut env T base n)
    (hkeeps : n.KeepsTypes env T types)
    (hwords : ∀ name ∈ n.kind.userNames, IsWordAmong base name)
    (hswitch : ∀ hint, n.kind = .switch [] hint → hint = .auto) (h : Steps env demand n H s K t)
    (hΓ : Γ.Holds base) (hs : s.Sound T Γ)
    (hH : H.Sound (Γ s.stage) (env.graph.HoldsTexture T n))
    (hlaid : s.IsLaidOut env.dialect) : t.IsLaidOut env.dialect := by
  induction h with
  | refl => exact hlaid
  | snoc hsteps hstep ih =>
    obtain ⟨Δ, hextends, hK⟩ := hsteps.extends hscoped hkeeps hwords hΓ hs hH
    exact hstep.isLaidOut hscoped hdemand hswitch (hextends.holds hΓ) hextends.sound hK
      (ih hs hH hlaid)

/-- The run of the emitter of a node leaves laid-out bodies. -/
theorem runsReading_isLaidOut (hscoped : demand.IsScoped env T types base n)
    (hdemand : demand.IsLaidOut env T base n)
    (hkeeps : n.KeepsTypes env T types)
    (hwords : ∀ name ∈ n.kind.userNames, IsWordAmong base name)
    (hswitch : ∀ hint, n.kind = .switch [] hint → hint = .auto) {pins : List String} {id : NodeId}
    (h : RunsReading env demand n pins (s.beginNode id) t) (hΓ : Γ.Holds base) (hs : s.Sound T Γ)
    (hlaid : s.IsLaidOut env.dialect) : (t.endNode id).IsLaidOut env.dialect := by
  obtain ⟨H, hsteps, -⟩ := h
  have hbegin : EmitState.Extends T types Γ Γ s (s.beginNode id) :=
    .of_sameCode hs (.beginNode s id)
  have hrun := hsteps.isLaidOut hscoped hdemand hkeeps hwords hswitch hΓ hbegin.sound .empty
    (hlaid.of_sameCode (.beginNode s id))
  exact hrun.of_sameCode (.endNode t id)

/-- Every evaluation leaves laid-out bodies. -/
theorem evaluate_isLaidOut
    (hkeeps : ∀ n, env.graph.IsRead n → n.KeepsTypes env T types)
    (hnames : ∀ name ∈ env.graph.userNames, IsWordAmong base name)
    (hswitches : env.graph.HintsAtCases) (hn : env.graph.IsRead n) :
    Demand.IsLaidOut env T base n evaluate := by
  intro o hupstream s v t h Γ hΓ hs hlaid
  obtain ⟨p, hp, ho⟩ := hupstream
  -- Evaluations also stay in scope, which the emitters that they run rely on.
  refine (evaluateWithin_induction (P := fun id pin s v t ↦
    (∀ m, env.graph.node? id = some m → env.graph.IsRead m) → ∀ Γ : Visible, Γ.Holds base →
      s.Sound T Γ → (∃ Δ, EmitState.Extends T types Γ Δ s t ∧ v.InScope (Δ t.stage) (T pin)) ∧
        (s.IsLaidOut env.dialect → t.IsLaidOut env.dialect)) ?_ ?_ _ o.node o.pin s v t
    (returns_evaluate.mp h) (fun m hm ↦ hn.upstream hp ho hm) Γ hΓ hs).2 hlaid
  · intro _ _ s v hv _ Γ _ hs
    exact ⟨⟨Γ, .refl hs, hs.binding hv⟩, fun hlaid ↦ hlaid⟩
  · intro demand hdemand _ _ n s v u hn _ _ _ hrun hv hread Γ hΓ hs
    have hread := hread n hn
    have hscoped : Demand.IsScoped env T types base n demand := by
      intro o hupstream s v t h Γ hΓ hs
      obtain ⟨p, hp, ho⟩ := hupstream
      exact (hdemand _ _ _ _ _ h (fun m hm ↦ hread.upstream hp ho hm) Γ hΓ hs).1
    have hlayout : Demand.IsLaidOut env T base n demand := by
      intro o hupstream s v t h Γ hΓ hs
      obtain ⟨p, hp, ho⟩ := hupstream
      exact (hdemand _ _ _ _ _ h (fun m hm ↦ hread.upstream hp ho hm) Γ hΓ hs).2
    have hwords := fun name hname ↦ hnames name (Graph.mem_userNames hread.mem hname)
    obtain ⟨Δ, hextends⟩ := runsReading_extends hscoped (hkeeps n hread) hwords hrun hΓ hs
    exact ⟨⟨Δ, hextends, hextends.sound.binding hv⟩, runsReading_isLaidOut hscoped hlayout
      (hkeeps n hread) hwords (hswitches.switch hread.mem) hrun hΓ hs⟩

theorem terminalRun_isLaidOut
    (hkeeps : ∀ n, env.graph.IsRead n → n.KeepsTypes env T types)
    (hnames : ∀ name ∈ env.graph.userNames, IsWordAmong base name)
    (hswitches : env.graph.HintsAtCases) (hn : env.graph.IsRead n)
    (h : TerminalRun env n s t) (hΓ : Γ.Holds base) (hs : s.Sound T Γ)
    (hlaid : s.IsLaidOut env.dialect) : t.IsLaidOut env.dialect := by
  obtain ⟨u, hrun, rfl⟩ := h
  exact runsReading_isLaidOut (evaluate_isScoped hkeeps hnames hn)
    (evaluate_isLaidOut hkeeps hnames hswitches hn) (hkeeps n hn)
    (fun name hname ↦ hnames name (Graph.mem_userNames hn.mem hname)) (hswitches.switch hn.mem)
    (emitKind_runs hrun) hΓ hs hlaid

theorem terminalRuns_isLaidOut
    (hkeeps : ∀ n, env.graph.IsRead n → n.KeepsTypes env T types)
    (hnames : ∀ name ∈ env.graph.userNames, IsWordAmong base name)
    (hswitches : env.graph.HintsAtCases) (hns : ∀ n ∈ ns, env.graph.IsRead n)
    (h : TerminalRuns env ns s t) (hΓ : Γ.Holds base) (hs : s.Sound T Γ)
    (hlaid : s.IsLaidOut env.dialect) : t.IsLaidOut env.dialect := by
  induction h generalizing Γ with
  | nil => exact hlaid
  | cons hrun _ ih =>
    have hn := hns _ List.mem_cons_self
    obtain ⟨Δ, hextends⟩ := terminalRun_extends hkeeps hnames hn hrun hΓ hs
    exact ih (fun n hn ↦ hns n (List.mem_cons_of_mem _ hn)) (hextends.holds hΓ) hextends.sound
      (terminalRun_isLaidOut hkeeps hnames hswitches hn hrun hΓ hs hlaid)

end Evaluation

/-- The bodies of an emission are laid out. -/
theorem emission_isLaidOut {settings : Settings} {g : Graph} {s : EmitState}
    (hnames : ∀ name ∈ g.userNames, IsWord name) (hswitches : g.HintsAtCases)
    (h : emission settings g = .ok s) : s.IsLaidOut settings.backend.dialect := by
  obtain ⟨pixelOutput, t, u, hterminal, hpixel, hvertex, rfl⟩ := emission_runs h
  let env : EmitEnv := ⟨g, settings⟩
  have hwords : ∀ name ∈ env.graph.userNames, IsWordAmong g.userNames name :=
    fun name hname ↦ ⟨hnames name hname, fun _ ↦ hname⟩
  have hkeeps : ∀ n, env.graph.IsRead n →
      n.KeepsTypes env (fun _ ↦ True) settings.backend.dialect.typeWords :=
    fun n _ ↦ n.keepsTypes_typeWords env
  have hswitches : env.graph.HintsAtCases := hswitches
  have hbase : Visible.Holds (fun _ ↦ g.userNames) g.userNames := fun _ ↦ List.Subset.refl _
  have hread : env.graph.IsRead pixelOutput := .of_terminal hterminal
  have ht : t.IsLaidOut env.dialect :=
    terminalRun_isLaidOut hkeeps hwords hswitches hread hpixel hbase EmitState.sound_empty .empty
  obtain ⟨Δ, hextends⟩ := terminalRun_extends hkeeps hwords hread hpixel hbase EmitState.sound_empty
  have hu : u.IsLaidOut env.dialect := terminalRuns_isLaidOut hkeeps hwords hswitches
    (fun n hn ↦ .of_vertexOutput hn) hvertex (hextends.holds hbase) hextends.sound.enter
    (ht.of_buffers fun stage ↦ by cases stage <;> rfl)
  exact hu.of_buffers fun stage ↦ by cases stage <;> rfl

/-- In a program for a target with attributes the entry point of each stage ends the source and holds a
laid-out body: every attribute of a branch is directly followed by an `if`, every attribute of a loop by
a `for`, and every `else` stands directly behind the brace that closes the block of an `if`, unless a
switch without cases hints at a branch. -/
theorem compile_areAttached {settings : Settings} {g : Graph} {a : Artifact}
    (hbackend : settings.backend = .hlsl) (hnames : ∀ name ∈ g.userNames, IsWord name)
    (hswitches : g.HintsAtCases) (h : compile settings g = .ok a) (stage : ShaderStage) :
    ∃ (output parameter : String) (body : List String),
      Assembly.entryLines output parameter (body.map ("\t" ++ ·)) <:+ textLines (a.source stage) ∧
        LaidOut Dialect.hlsl body ∧ Dialect.hlsl.AreAttached body := by
  obtain ⟨s, hemission, rfl⟩ := compile_eq_ok_iff.mp h
  have hlaid := emission_isLaidOut hnames hswitches hemission
  have hmain := (hlaid stage (s.shader stage).main (by simp [StageShader.buffers])).laidOut
  rw [hbackend] at hmain
  have hsource : (s.artifact settings).source stage =
      Assembly.stageSource settings s.requirements (s.shader stage) := by
    cases stage <;> rfl
  obtain ⟨ls, hlines, -⟩ := Assembly.textLines_stageSource hbackend s.requirements (s.shader stage)
  rw [CodeBuffer.splicedLines_eq hmain.isFullLine] at hlines
  have hend : Assembly.entryLines (Assembly.structNames (s.shader stage).stage).2
      (Assembly.inputParameter (s.shader stage) s.requirements)
      ((textLines (s.shader stage).main.text).map ("\t" ++ ·)) <:+
        textLines ((s.artifact settings).source stage) := by
    rw [hsource, hlines]
    exact List.suffix_append ..
  exact ⟨_, _, _, hend, hmain, hmain.areAttached (b := .hlsl)⟩

theorem compile_areAttached_loopInBranch :
    (∀ name ∈ loopInBranch.userNames, IsWord name) ∧ loopInBranch.HintsAtCases ∧
      ∃ a, compile { backend := .hlsl, unrollLoops? := some true } loopInBranch = .ok a ∧
        ∃ (output parameter : String) (body : List String),
          Assembly.entryLines output parameter (body.map ("\t" ++ ·)) <:+
              textLines (a.source .pixel) ∧
            LaidOut Dialect.hlsl body ∧ Dialect.hlsl.AreAttached body := by
  have hnames : ∀ name ∈ loopInBranch.userNames, IsWord name := by decide +kernel
  have hswitches : loopInBranch.HintsAtCases := by decide +kernel
  let settings : Settings := { backend := .hlsl, unrollLoops? := some true }
  obtain ⟨a, h⟩ := exists_ok_of_isOk (x := compile settings loopInBranch) (by decide +kernel)
  exact ⟨hnames, hswitches, a, h, compile_areAttached rfl hnames hswitches h .pixel⟩

/-- A switch without cases that hints at a branch. -/
def caselessSwitch : Graph :=
  .numbered
    [.pixelOutput {}, .switch [] .dynamic, .uniform "Select" .scalar, .uniform "Color" .vec4]
    [⟨1, "Output", 0, "Input"⟩, ⟨2, "Output", 1, "Select"⟩, ⟨3, "Output", 1, "Default"⟩]

/-- The attribute of the switch is attached to the bare block of its default. -/
theorem emission_caselessSwitch :
    caselessSwitch.Built ∧ ∃ s, emission { backend := .hlsl } caselessSwitch = .ok s ∧
      textLines s.pixel.main.text =
        ["float4 v0;", "[branch]", "\x7b", "\tv0 = Color;", "\x7d", "o.Color0 = v0;"] := by
  refine ⟨Graph.built_numbered _ _, exists_emission_of_lines { backend := .hlsl } caselessSwitch .pixel
    ?_ (by decide +kernel)⟩
  repeat refine forall_isLine_cons (by decide) ?_
  exact List.forall_mem_nil _

end ShaderGraph
