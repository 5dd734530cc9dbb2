import Mathlib.Data.List.Nodup
import ShaderGraph.Proofs.Emission.Evaluation
import ShaderGraph.Proofs.Graph.Editing
import ShaderGraph.Proofs.Scope.Steps

/-!
# Scopes of compiled programs

Every evaluation writes scoped code, and so does a whole emission, which writes the pixel stage with
the parts of the vertex stage that it needs and the rest of the vertex stage after that. In the bodies
of a compiled program every temporary is declared once over both stages, and occurs in the reach of
its declaration only.
-/

namespace ShaderGraph

open EmitM

namespace Graph

/-- The names that the author of a graph gives to parameters and subroutines. -/
def userNames (g : Graph) : List String :=
  g.nodes.values.flatMap fun n ↦ n.kind.userNames

theorem mem_userNames {g : Graph} {n : Node} (hn : n ∈ g.nodes.values) {name : String}
    (h : name ∈ n.kind.userNames) : name ∈ g.userNames :=
  List.mem_flatMap.mpr ⟨n, hn, h⟩

end Graph

/-- Whatever temporaries are declared and whatever outputs are bound to textures, all named types and all
outputs do. -/
theorem Node.keepsTypes_typeWords (n : Node) (env : EmitEnv) :
    n.KeepsTypes env (fun _ ↦ True) env.settings.backend.dialect.typeWords where
  numeric _ _ _ hname := env.settings.backend.mem_typeWords hname
  forwarded _ _ _ _ := trivial
  copied _ _ _ := ⟨fun _ _ hname ↦ env.settings.backend.mem_typeWords hname, fun _ _ ↦ trivial⟩

namespace Graph.IsRead

variable {g : Graph} {n : Node}

theorem of_terminal (h : g.terminal = .ok n) : g.IsRead n :=
  .terminal (terminal_mem h) (.inl (isPixelOutput_of_terminal h))

theorem of_vertexOutput (h : n ∈ g.nodesOfKind NodeKind.isVertexOutput) : g.IsRead n :=
  .terminal (List.mem_filter.mp h).1 (.inr (List.mem_filter.mp h).2)

end Graph.IsRead

section Evaluation

variable {env : EmitEnv} {demand : Demand} {n : Node} {H K : Held} {s t : EmitState} {Γ : Visible}
  {T : PinId → Prop} {types base : List String}

theorem Steps.extends (hdemand : demand.IsScoped env T types base n)
    (hkeeps : n.KeepsTypes env T types)
    (hwords : ∀ name ∈ n.kind.userNames, IsWordAmong base name) (h : Steps env demand n H s K t)
    (hΓ : Γ.Holds base) (hs : s.Sound T Γ)
    (hH : H.Sound (Γ s.stage) (env.graph.HoldsTexture T n)) :
    ∃ Δ, EmitState.Extends T types Γ Δ s t ∧
      K.Sound (Δ t.stage) (env.graph.HoldsTexture T n) := by
  induction h with
  | refl => exact ⟨Γ, .refl hs, hH⟩
  | snoc _ hstep ih =>
    obtain ⟨Δ, hfirst, hK⟩ := ih hs hH
    obtain ⟨Θ, hlast, hL⟩ := hstep.extends hdemand hkeeps hwords (hfirst.holds hΓ) hfirst.sound hK
    exact ⟨Θ, hfirst.trans hlast, hL⟩

theorem EmitState.SameCode.beginNode (s : EmitState) (id : NodeId) : s.SameCode (s.beginNode id) :=
  ⟨rfl, rfl, rfl, rfl, fun stage ↦ by cases stage <;> exact .refl _⟩

theorem EmitState.SameCode.endNode (s : EmitState) (id : NodeId) : s.SameCode (s.endNode id) :=
  ⟨rfl, rfl, rfl, rfl, fun stage ↦ by cases stage <;> exact .refl _⟩

/-- The run of the emitter of a node writes scoped code. -/
theorem runsReading_extends (hdemand : demand.IsScoped env T types base n)
    (hkeeps : n.KeepsTypes env T types)
    (hwords : ∀ name ∈ n.kind.userNames, IsWordAmong base name) {pins : List String} {id : NodeId}
    (h : RunsReading env demand n pins (s.beginNode id) t) (hΓ : Γ.Holds base)
    (hs : s.Sound T Γ) :
    ∃ Δ, EmitState.Extends T types Γ Δ s (t.endNode id) := by
  obtain ⟨H, hsteps, -⟩ := h
  have hbegin : EmitState.Extends T types Γ Γ s (s.beginNode id) :=
    .of_sameCode hs (.beginNode s id)
  obtain ⟨Δ, hextends, -⟩ := hsteps.extends hdemand hkeeps hwords hΓ hbegin.sound .empty
  exact ⟨Δ, hbegin.trans (hextends.trans (.of_sameCode hextends.sound (.endNode t id)))⟩

/-- Every evaluation of what a node reads writes scoped code. -/
theorem evaluate_isScoped
    (hkeeps : ∀ n, env.graph.IsRead n → n.KeepsTypes env T types)
    (hnames : ∀ name ∈ env.graph.userNames, IsWordAmong base name) (hn : env.graph.IsRead n) :
    Demand.IsScoped env T types base n evaluate := by
  intro o hupstream s v t h
  obtain ⟨p, hp, ho⟩ := hupstream
  refine evaluateWithin_induction (P := fun id pin s v t ↦
    (∀ m, env.graph.node? id = some m → env.graph.IsRead m) → ∀ Γ : Visible, Γ.Holds base →
      s.Sound T Γ → ∃ Δ, EmitState.Extends T types Γ Δ s t ∧ v.InScope (Δ t.stage) (T pin)) ?_ ?_ _
    o.node o.pin s v t (returns_evaluate.mp h) fun m hm ↦ hn.upstream hp ho hm
  · intro _ _ s v hv _ Γ _ hs
    exact ⟨Γ, .refl hs, hs.binding hv⟩
  · intro demand hdemand _ _ n s v u hn _ _ _ hrun hv hread Γ hΓ hs
    have hread := hread n hn
    have hscoped : Demand.IsScoped env T types base n demand := by
      intro o hupstream s v t h
      obtain ⟨p, hp, ho⟩ := hupstream
      exact hdemand _ _ _ _ _ h fun m hm ↦ hread.upstream hp ho hm
    obtain ⟨Δ, hextends⟩ := runsReading_extends hscoped (hkeeps n hread)
      (fun name hname ↦ hnames name (Graph.mem_userNames hread.mem hname)) hrun hΓ hs
    exact ⟨Δ, hextends, hextends.sound.binding hv⟩

end Evaluation

/-! ## Whole emissions -/

section Emission

variable {env : EmitEnv} {n : Node} {ns : List Node} {s t : EmitState} {Γ : Visible}
  {T : PinId → Prop} {types base : List String}

theorem terminalRun_extends
    (hkeeps : ∀ n, env.graph.IsRead n → n.KeepsTypes env T types)
    (hnames : ∀ name ∈ env.graph.userNames, IsWordAmong base name)
    (hn : env.graph.IsRead n) (h : TerminalRun env n s t) (hΓ : Γ.Holds base)
    (hs : s.Sound T Γ) :
    ∃ Δ, EmitState.Extends T types Γ Δ s t := by
  obtain ⟨u, hrun, rfl⟩ := h
  exact runsReading_extends (evaluate_isScoped hkeeps hnames hn) (hkeeps n hn)
    (fun name hname ↦ hnames name (Graph.mem_userNames hn.mem hname)) (emitKind_runs hrun) hΓ hs

theorem terminalRuns_extends
    (hkeeps : ∀ n, env.graph.IsRead n → n.KeepsTypes env T types)
    (hnames : ∀ name ∈ env.graph.userNames, IsWordAmong base name)
    (hns : ∀ n ∈ ns, env.graph.IsRead n) (h : TerminalRuns env ns s t) (hΓ : Γ.Holds base)
    (hs : s.Sound T Γ) :
    ∃ Δ, EmitState.Extends T types Γ Δ s t := by
  induction h generalizing Γ with
  | nil => exact ⟨Γ, .refl hs⟩
  | cons hrun _ ih =>
    obtain ⟨Δ, hfirst⟩ := terminalRun_extends hkeeps hnames (hns _ (by simp)) hrun hΓ hs
    obtain ⟨Θ, hrest⟩ := ih (fun n hn ↦ hns n (List.mem_cons_of_mem _ hn)) (hfirst.holds hΓ)
      hfirst.sound
    exact ⟨Θ, hfirst.trans hrest⟩

theorem EmitState.sound_empty : ({} : EmitState).Sound T Γ where
  shaders stage := by
    cases stage <;> refine ⟨fun b hb ↦ ?_, by simp [EmitState.shader], by simp [EmitState.shader],
      by simp [EmitState.shader]⟩ <;> obtain rfl := List.mem_singleton.mp hb <;> decide
  vertex _ := rfl
  samplers := by simp [OrderedMap.values, OrderedMap.empty]

/-- A stage that was empty has code for its body. -/
theorem StageShader.Grows.code_main {Γ locals declared : List String} {slots : List Nat}
    {s t : StageShader} (hs : s.buffers = [{}]) (h : s.Grows types Γ t locals declared slots) :
    Code types Γ (tokens t.main.text) locals declared slots := by
  obtain ⟨b, c, rest, ts, hb, hc, hgrows, hcode⟩ := h.code
  obtain ⟨rfl, rfl⟩ := List.cons.inj (hs.symm.trans hb)
  have hmain : t.main = c := by
    have hlast := congrArg List.getLast? hc
    simpa [buffers] using hlast
  have htokens : tokens t.main.text = ts := by
    rw [hmain, hgrows.tokens]
    rfl
  rwa [htokens]

/-- The bodies that an emission writes are code, in which the types of declarations are among those of
which the nodes may declare temporaries. Their declarations declare each of the temporaries
once, and the vertex stage writes the interpolator slots one after another. -/
theorem emission_code {settings : Settings} {g : Graph}
    (hkeeps : ∀ n, g.IsRead n → n.KeepsTypes ⟨g, settings⟩ T types)
    (hnames : ∀ name ∈ g.userNames, IsWordAmong base name) (h : emission settings g = .ok s) :
    ∃ locals declared : Visible,
      (∀ stage, Code types base (tokens (s.shader stage).main.text)
        (locals stage) (declared stage) (EmitState.writtenSlots 0 s.interpolators stage)) ∧
      (declared .vertex ++ declared .pixel).Perm (EmitState.temporaries 0 s.nextVariable) := by
  obtain ⟨pixelOutput, t, u, hterminal, hpixel, hvertex, rfl⟩ := emission_runs h
  obtain ⟨Δ, hfirst, locals, declared, k, m, rfl, hgrowth⟩ :=
    terminalRun_extends (Γ := fun _ ↦ base) hkeeps hnames (.of_terminal hterminal) hpixel
      (fun _ ↦ List.Subset.refl _) EmitState.sound_empty
  obtain ⟨Θ, -, locals', declared', k', m', rfl, hgrowth'⟩ :=
    terminalRuns_extends hkeeps hnames (fun n hn ↦ .of_vertexOutput hn) hvertex
      (fun stage ↦ List.subset_append_right ..) hfirst.enter
  have hslots : m' = 0 := hgrowth'.vertex rfl
  subst hslots
  have hinterpolators : u.interpolators = m := by
    rw [hgrowth'.interpolators]
    simpa using hgrowth.interpolators
  refine ⟨fun stage ↦ locals' stage ++ locals stage, fun stage ↦ declared stage ++ declared' stage,
    fun stage ↦ ?_, ?_⟩
  · cases stage with
    | vertex =>
      have hgrows := (hgrowth.shaders .vertex).trans (hgrowth'.shaders .vertex)
      rw [show ({ u with stage := .pixel } : EmitState).interpolators = m from hinterpolators]
      have hcode := hgrows.code_main rfl
      rw [EmitState.writtenSlots, EmitState.writtenSlots, List.range'_zero, List.append_nil] at hcode
      exact hcode
    | pixel =>
      have hgrows := (hgrowth.shaders .pixel).trans (hgrowth'.shaders .pixel)
      exact hgrows.code_main rfl
  · have hnext : t.nextVariable = 0 + k := hgrowth.nextVariable
    have hlast : u.nextVariable = t.nextVariable + k' := hgrowth'.nextVariable
    have hfirst := hgrowth.names
    have hsecond := hgrowth'.names
    rw [show ({ u with stage := .pixel } : EmitState).nextVariable = k + k' by simp [hlast, hnext],
      EmitState.temporaries_add, ← hnext]
    simp only [List.perm_iff_count, List.count_append, List.count_nil] at hfirst hsecond ⊢
    intro name
    have hfirst := hfirst name
    have hsecond := hsecond name
    omega

/-- The bodies of an emission are read without failure where declarations start with the given names of
types, and what is declared in them are the temporaries. -/
theorem emission_declarations {settings : Settings} {g : Graph}
    (hkeeps : ∀ n, g.IsRead n → n.KeepsTypes ⟨g, settings⟩ T types)
    (hwords : ∀ type ∈ types, isTemporary type = false)
    (hnames : ∀ name ∈ g.userNames, IsPlainWord name) (h : emission settings g = .ok s) :
    ∃ vertex pixel, declarations? types s.vertex.main.text = some vertex ∧
      declarations? types s.pixel.main.text = some pixel ∧
      (vertex ++ pixel).Perm ((List.range s.nextVariable).map temporary) := by
  obtain ⟨locals, declared, hcode, hperm⟩ :=
    emission_code hkeeps (fun name hname ↦ (hnames name hname).among []) h
  rw [EmitState.temporaries, ← List.range_eq_range'] at hperm
  exact ⟨_, _, (hcode .vertex).declarations?_eq hwords, (hcode .pixel).declarations?_eq hwords, hperm⟩

/-- In the bodies of a compiled program every temporary that occurs is in the reach of a declaration,
and each temporary is declared exactly once over both stages. -/
theorem compile_declarations {settings : Settings} {g : Graph} {a : Artifact}
    (hnames : ∀ name ∈ g.userNames, IsPlainWord name) (h : compile settings g = .ok a) :
    ∃ s vertex pixel, emission settings g = .ok s ∧ a = s.artifact settings ∧
      declarations? settings.backend.dialect.typeWords s.vertex.main.text = some vertex ∧
      declarations? settings.backend.dialect.typeWords s.pixel.main.text = some pixel ∧
      (vertex ++ pixel).Nodup ∧
      (vertex ++ pixel).Perm ((List.range s.nextVariable).map temporary) := by
  obtain ⟨s, hemission, rfl⟩ := compile_eq_ok_iff.mp h
  obtain ⟨vertex, pixel, hvertex, hpixel, hperm⟩ := emission_declarations
    (fun n _ ↦ n.keepsTypes_typeWords ⟨g, settings⟩)
    settings.backend.isTemporary_of_mem_typeWords hnames hemission
  have hnodup : ((List.range s.nextVariable).map temporary).Nodup :=
    (List.nodup_map_iff temporary_injective).mpr List.nodup_range
  exact ⟨s, vertex, pixel, hemission, rfl, hvertex, hpixel, hperm.nodup_iff.mpr hnodup, hperm⟩

/-- A graph with a loop in one arm of a branch and an interpolator in the other. -/
def loopInBranch : Graph :=
  .numbered
    [.pixelOutput {}, .conditional .less .dynamic, .uniform "threshold" .scalar, .interpolator,
      .vertexInput "uv" .custom .vec4 0, .iterate 0 3, .uniform "tint" .vec4, .arithmetic .mul,
      .vertexOutput]
    [⟨1, "Output", 0, "Input"⟩, ⟨2, "Output", 1, "Input"⟩, ⟨2, "Output", 1, "Reference"⟩,
      ⟨3, "Output", 1, "CaseTrue"⟩, ⟨5, "Output", 1, "CaseFalse"⟩, ⟨4, "Output", 3, "Input"⟩,
      ⟨7, "Output", 5, "Input"⟩, ⟨5, "N", 7, "Input1"⟩, ⟨6, "Output", 7, "Input2"⟩,
      ⟨4, "Output", 8, "Input"⟩]

theorem exists_compile_loopInBranch : ∃ a, compile {} loopInBranch = .ok a :=
  exists_ok_of_isOk (by decide +kernel)

theorem compile_declarations_loopInBranch :
    (∀ name ∈ loopInBranch.userNames, IsPlainWord name) ∧ ∃ a, compile {} loopInBranch = .ok a ∧
      ∃ s vertex pixel, emission {} loopInBranch = .ok s ∧ a = s.artifact {} ∧
        declarations? Backend.glsl.dialect.typeWords s.vertex.main.text = some vertex ∧
        declarations? Backend.glsl.dialect.typeWords s.pixel.main.text = some pixel ∧
        (vertex ++ pixel).Nodup ∧
        (vertex ++ pixel).Perm ((List.range s.nextVariable).map temporary) := by
  have hnames : ∀ name ∈ loopInBranch.userNames, IsPlainWord name := by decide +kernel
  obtain ⟨a, h⟩ := exists_compile_loopInBranch
  exact ⟨hnames, a, h, compile_declarations hnames h⟩

/-- The vertex stage of a compiled program writes each interpolator slot once, outside of all
blocks. -/
theorem emission_slotAssignments {settings : Settings} {g : Graph}
    (hnames : ∀ name ∈ g.userNames, IsWord name) (h : emission settings g = .ok s) :
    slotAssignments 0 (tokens s.vertex.main.text) =
      (List.range s.interpolators).map fun slot ↦ (0, interpolatorName slot) := by
  have hwords : ∀ name ∈ g.userNames, IsWordAmong g.userNames name :=
    fun name hname ↦ ⟨hnames name hname, fun _ ↦ hname⟩
  obtain ⟨locals, declared, hcode, -⟩ := emission_code
    (fun n _ ↦ n.keepsTypes_typeWords ⟨g, settings⟩) hwords h
  have hslots := (hcode .vertex).slotAssignments_eq 0 [] (by simp)
  rw [List.append_nil] at hslots
  rw [show s.vertex.main = (s.shader .vertex).main from rfl, hslots, EmitState.writtenSlots,
    ← List.range_eq_range']
  exact List.append_nil _

/-- There are no more temporaries than characters in the bodies, and no more slots than characters in the
body of the vertex stage. -/
theorem emission_counts_le {settings : Settings} {g : Graph} {s : EmitState}
    (hnames : ∀ name ∈ g.userNames, IsPlainWord name) (h : emission settings g = .ok s) :
    s.nextVariable ≤ s.vertex.main.text.length + s.pixel.main.text.length ∧
      s.interpolators ≤ s.vertex.main.text.length := by
  constructor
  · obtain ⟨vertex, pixel, hvertex, hpixel, hperm⟩ := emission_declarations
      (fun n _ ↦ n.keepsTypes_typeWords ⟨g, settings⟩)
      settings.backend.isTemporary_of_mem_typeWords hnames h
    have hlength := hperm.length_eq
    rw [List.length_append, List.length_map, List.length_range] at hlength
    rw [← hlength]
    exact Nat.add_le_add (length_of_declarations? hvertex) (length_of_declarations? hpixel)
  · have hslots := congrArg List.length (emission_slotAssignments (fun name hname ↦ (hnames name hname).1) h)
    rw [List.length_map, List.length_range] at hslots
    calc s.interpolators
        = (slotAssignments 0 (tokens s.vertex.main.text)).length := hslots.symm
      _ ≤ (assignments 0 (tokens s.vertex.main.text)).length := List.length_filter_le ..
      _ ≤ (tokens s.vertex.main.text).length := length_assignments_le ..
      _ ≤ s.vertex.main.text.length := length_tokens_le _

end Emission

/-! ## Types of temporaries

A declaration takes its type from a common type of several values, from a value that was checked to be
a number, or from the first value of a loop. Only a switch without cases has a single value to take its
type from, so that nothing keeps it from declaring a temporary for a texture. The value of an output is a
texture if the output is that of a parameter, or of a node that passes a value on as it finds it.
-/

/-- Words that name types of numbers. -/
def Dialect.numericWords (d : Dialect) : List String :=
  ((Labelled.all : List ValueType).filter ValueType.isNumeric).filterMap d.typeName?

namespace Backend

variable {b : Backend} {t : ValueType} {name : String}

theorem numericWords_subset_typeWords (b : Backend) :
    b.dialect.numericWords ⊆ b.dialect.typeWords := by
  cases b <;> decide

theorem mem_numericWords (ht : t.isNumeric) (h : b.dialect.typeName? t = some name) :
    name ∈ b.dialect.numericWords := by
  refine List.mem_filterMap.mpr ⟨t, List.mem_filter.mpr ⟨?_, ht⟩, h⟩
  cases t <;> decide

end Backend

namespace Graph

/-- An output that may be bound to a texture: that of a parameter that is one, or that of a node that may
pass one on. -/
inductive YieldsTexture (g : Graph) : PinId → Prop
  | parameter {n : Node} {p : Pin} {name : String} {type : ValueType} (hn : n ∈ g.nodes.values)
    (hkind : n.kind = .uniform name type) (htype : type.isTexture) (hp : p ∈ n.outputs) :
    YieldsTexture g p.id
  | forwarded {n : Node} {p q : Pin} {c : Connection} (hn : n ∈ g.nodes.values)
    (hkind : n.kind.forwards) (hp : p ∈ n.outputs) (hq : q ∈ n.inputs)
    (hc : g.driver? q.id = some c) (h : YieldsTexture g c.fromPin) : YieldsTexture g p.id

/-- The default of every switch without cases that is read comes from an output that yields no
texture. -/
def DefaultsToNumbers (g : Graph) : Prop :=
  ∀ n, g.IsRead n → ∀ hint, n.kind = .switch [] hint → ¬ g.TakesTexture g.YieldsTexture n "Default"

variable {g : Graph} {n : Node} {pin : PinId}

theorem YieldsTexture.exists_forwards (h : g.YieldsTexture pin) :
    ∃ n ∈ g.nodes.values, n.kind.forwards ∧ ∃ p ∈ n.outputs, p.id = pin := by
  cases h with
  | parameter hn hkind _ hp => exact ⟨_, hn, by rw [hkind]; rfl, _, hp, rfl⟩
  | forwarded hn hkind hp => exact ⟨_, hn, hkind, _, hp, rfl⟩

theorem DefaultsToNumbers.keepsTypes (h : g.DefaultsToNumbers) (settings : Settings)
    (hn : g.IsRead n) :
    n.KeepsTypes ⟨g, settings⟩ g.YieldsTexture settings.backend.dialect.numericWords where
  numeric _ _ ht hname := Backend.mem_numericWords ht hname
  forwarded hkind hholds p hp := by
    obtain ⟨name, type, huniform, htype⟩ | ⟨pin, q, c, hq, hc, hyields⟩ := hholds
    · exact .parameter hn.mem huniform htype hp
    · exact .forwarded hn.mem hkind hp (List.mem_of_find?_eq_some hq) hc hyields
  copied hint hkind htakes := absurd htakes (h n hn hint hkind)

end Graph

/-- If no switch without cases that is read has a texture for its default, then every temporary that a
compiled program declares has the type of a scalar, a vector or a matrix: the bodies are read without
failure where a declaration has to start with the name of such a type, and each temporary is declared
once over both stages. -/
theorem compile_numericDeclarations {settings : Settings} {g : Graph} {a : Artifact}
    (hnames : ∀ name ∈ g.userNames, IsPlainWord name) (hswitches : g.DefaultsToNumbers)
    (h : compile settings g = .ok a) :
    ∃ s vertex pixel, emission settings g = .ok s ∧ a = s.artifact settings ∧
      declarations? settings.backend.dialect.numericWords s.vertex.main.text = some vertex ∧
      declarations? settings.backend.dialect.numericWords s.pixel.main.text = some pixel ∧
      (vertex ++ pixel).Perm ((List.range s.nextVariable).map temporary) := by
  obtain ⟨s, hemission, rfl⟩ := compile_eq_ok_iff.mp h
  have hwords : ∀ type ∈ settings.backend.dialect.numericWords, isTemporary type = false :=
    fun type htype ↦ settings.backend.isTemporary_of_mem_typeWords type
      (settings.backend.numericWords_subset_typeWords htype)
  obtain ⟨vertex, pixel, hdeclarations⟩ := emission_declarations
    (fun n hn ↦ hswitches.keepsTypes settings hn) hwords hnames hemission
  exact ⟨s, vertex, pixel, hemission, rfl, hdeclarations⟩

/-- A graph with a switch without cases whose default is a product, and another one whose default is a
texture, which nothing reads. -/
def unreadSwitch : Graph :=
  .numbered
    [.pixelOutput {}, .switch [] .auto, .uniform "select" .scalar, .arithmetic .mul,
      .uniform "tint" .vec4, .switch [] .auto, .uniform "albedo" .texture2D]
    [⟨1, "Output", 0, "Input"⟩, ⟨2, "Output", 1, "Select"⟩, ⟨3, "Output", 1, "Default"⟩,
      ⟨4, "Output", 3, "Input1"⟩, ⟨4, "Output", 3, "Input2"⟩, ⟨2, "Output", 5, "Select"⟩,
      ⟨6, "Output", 5, "Default"⟩]

theorem isRead_unreadSwitch {n : Node} (h : unreadSwitch.IsRead n) :
    n.id ∈ (List.range 5).map Graph.nodeNumber := by
  have hterminals : ∀ n ∈ unreadSwitch.nodes.values, n.kind.isPixelOutput ∨ n.kind.isVertexOutput →
      n.id ∈ (List.range 5).map Graph.nodeNumber := by decide +kernel
  have hinputs : ∀ n ∈ unreadSwitch.nodes.values, n.id ∈ (List.range 5).map Graph.nodeNumber →
      ∀ p ∈ n.inputs, ∀ c ∈ unreadSwitch.driver? p.id, ∀ m ∈ unreadSwitch.node? c.fromNode,
        m.id ∈ (List.range 5).map Graph.nodeNumber := by decide +kernel
  induction h with
  | terminal hn hkind => exact hterminals _ hn hkind
  | input hread hp hc hm ih => exact hinputs _ hread.mem ih _ hp _ hc _ hm

theorem defaultsToNumbers_unreadSwitch : unreadSwitch.DefaultsToNumbers := by
  have hdefaults : ∀ n ∈ unreadSwitch.nodes.values, n.id ∈ (List.range 5).map Graph.nodeNumber →
      n.typeName = "Switch" → ∀ p ∈ n.input? "Default", ∀ c ∈ unreadSwitch.driver? p.id,
        ∀ m ∈ unreadSwitch.nodes.values.filter (·.kind.forwards), ∀ q ∈ m.outputs,
          q.id ≠ c.fromPin := by
    decide +kernel
  intro n hn hint hkind htakes
  obtain ⟨p, c, hp, hc, hyields⟩ := htakes
  obtain ⟨m, hm, hforwards, q, hq, hpin⟩ := hyields.exists_forwards
  have hname : n.typeName = "Switch" := by
    rw [Node.typeName, hkind]
    rfl
  exact hdefaults n hn.mem (isRead_unreadSwitch hn) hname p hp c hc m
    (List.mem_filter.mpr ⟨hm, hforwards⟩) q hq hpin

theorem compile_numericDeclarations_unreadSwitch :
    (∀ name ∈ unreadSwitch.userNames, IsPlainWord name) ∧ unreadSwitch.DefaultsToNumbers ∧
      ∃ a, compile {} unreadSwitch = .ok a ∧
        ∃ s vertex pixel, emission {} unreadSwitch = .ok s ∧ a = s.artifact {} ∧
          declarations? Backend.glsl.dialect.numericWords s.vertex.main.text = some vertex ∧
          declarations? Backend.glsl.dialect.numericWords s.pixel.main.text = some pixel ∧
          (vertex ++ pixel).Perm ((List.range s.nextVariable).map temporary) := by
  have hnames : ∀ name ∈ unreadSwitch.userNames, IsPlainWord name := by decide +kernel
  obtain ⟨a, h⟩ := exists_ok_of_isOk (x := compile {} unreadSwitch) (by decide +kernel)
  exact ⟨hnames, defaultsToNumbers_unreadSwitch, a, h,
    compile_numericDeclarations hnames defaultsToNumbers_unreadSwitch h⟩

/-- A graph that samples the texture which a switch without cases yields. -/
def copiedTexture : Graph :=
  .numbered
    [.pixelOutput {}, .sampler {}, .switch [] .auto, .uniform "select" .scalar,
      .uniform "albedo" .texture2D, .uniform "place" .vec2]
    [⟨1, "Output", 0, "Input"⟩, ⟨2, "Output", 1, "Texture"⟩, ⟨5, "Output", 1, "TexCoord"⟩,
      ⟨3, "Output", 2, "Select"⟩, ⟨4, "Output", 2, "Default"⟩]

/-- The program of the graph declares a temporary for the texture. -/
theorem declarations_copiedTexture :
    (compile {} copiedTexture).isOk ∧ (∀ name ∈ copiedTexture.userNames, IsPlainWord name) ∧
      ∃ s, emission {} copiedTexture = .ok s ∧
        declarations? Backend.glsl.dialect.typeWords s.pixel.main.text = some ["v0", "v1"] ∧
        declarations? Backend.glsl.dialect.numericWords s.pixel.main.text = none ∧
        (tokens s.pixel.main.text).take 3 = [.word "sampler2D", .word "v0", .mark ";"] := by
  refine ⟨by decide +kernel, by decide +kernel, ?_⟩
  let lines := ["sampler2D v0;", "\x7b", "\tv0 = albedo;", "\x7d",
    "vec4 v1 = texture(_gl_sampler_v0, place);", "_gl_FragData_0 = v1;"]
  have hlines : ∀ l ∈ lines, IsLine l := by
    repeat refine forall_isLine_cons (by decide) ?_
    exact List.forall_mem_nil _
  obtain ⟨s, hs, htext⟩ := exists_emission_of_lines {} copiedTexture .pixel hlines (by decide +kernel)
  have htokens : tokens s.pixel.main.text = lines.flatMap tokens := by
    rw [← htext, tokens_textLines]
    rfl
  refine ⟨s, hs, ?_⟩
  simp only [declarations?, htokens, lines, List.flatMap_cons, List.flatMap_nil]
  repeat rw [tokens_ofList]
  decide +kernel

end ShaderGraph
