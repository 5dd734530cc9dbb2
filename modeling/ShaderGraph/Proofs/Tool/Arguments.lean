import Mathlib.Data.List.Perm.Basic
import ShaderGraph.Tool.Arguments

/-!
# Command lines and what they say

A command line is made of groups: the graph file, an option with its value, or a flag. The reader takes
one group after another, and a value is never looked at as an option. Groups that say different things
can be exchanged, so the groups of some arguments read back as these arguments in any order.
-/

namespace ShaderGraph.Tool

/-- A part of a command line that cannot be taken apart. -/
inductive ArgumentGroup
  | graph (path : String)
  | backend (target : Backend)
  | settings (path : String)
  | outDir (path : String)
  | format (f : ArtifactFormat)
  | verbose
deriving DecidableEq, Repr

namespace ArgumentGroup

def words : ArgumentGroup → List String
  | graph path => [path]
  | backend target => ["--backend", target.name]
  | settings path => ["--settings", path]
  | outDir path => ["--out-dir", path]
  | format f => ["--format", f.extension]
  | verbose => ["-v"]

def graph? : ArgumentGroup → Option String
  | graph path => some path
  | _ => none

end ArgumentGroup

/-- The arguments as far as they are read, and the graph file if it was met. -/
structure Reading where
  arguments : Arguments := {}
  graph? : Option String := none
deriving DecidableEq, Repr

namespace Reading

def parse (r : Reading) (args : List String) : Except ToolError Command :=
  Arguments.parseFrom r.arguments r.graph? args

/-- What is known once a group is read. -/
def add (r : Reading) : ArgumentGroup → Reading
  | .graph path => { r with graph? := some path }
  | .backend target => { r with arguments.backend? := some target }
  | .settings path => { r with arguments.settings? := some path }
  | .outDir path => { r with arguments.outDir? := some path }
  | .format f => { r with arguments.format := f }
  | .verbose => { r with arguments.verbose := true }

/-- The paths of graph files that the reader has met, and those that are still to come. -/
def graphs (r : Reading) (groups : List ArgumentGroup) : List String :=
  r.graph?.toList ++ groups.filterMap ArgumentGroup.graph?

end Reading

theorem backendNamed_name (target : Backend) : backendNamed target.name = .ok target := by
  cases target <;> decide +kernel

theorem formatNamed_extension (f : ArtifactFormat) : formatNamed f.extension = .ok f := by
  cases f <;> decide +kernel

/-- All options start with a dash. -/
theorem head?_label (o : ValueOption) : (Labelled.label o).toList.head? = some '-' := by
  cases o <;> rfl

theorem ofLabel?_eq_none {text : String} (h : text.toList.head? ≠ some '-') :
    (Labelled.ofLabel? text : Option ValueOption) = none := by
  rw [Labelled.ofLabel?, List.find?_eq_none]
  intro o _ heq
  rw [← of_decide_eq_true heq] at h
  exact h (head?_label o)

namespace Reading

variable {r : Reading} {rest : List String}

/-! ## Reading one group -/

/-- A path that does not look like an option is read as the graph file. -/
theorem parse_path {path : String} (hpath : path.toList.head? ≠ some '-') (hnone : r.graph? = none) :
    r.parse (path :: rest) = (r.add (.graph path)).parse rest := by
  have hflag (flag : String) (hdash : flag.toList.head? = some '-') : path ≠ flag := by
    rintro rfl
    exact hpath hdash
  have hhelp : ¬ (path = "-h" ∨ path = "--help") := not_or.mpr ⟨hflag _ rfl, hflag _ rfl⟩
  have hverbose : ¬ (path = "-v" ∨ path = "--verbose") := not_or.mpr ⟨hflag _ rfl, hflag _ rfl⟩
  rw [parse, Arguments.parseFrom, if_neg hhelp, if_neg hverbose]
  · rw [if_neg hpath, hnone]
    rfl
  · exact ofLabel?_eq_none hpath

/-- Whatever a value looks like, it belongs to the option before it. -/
theorem parse_value {o : ValueOption} {value : String} {a : Arguments}
    (hset : r.arguments.set value o = .ok a) :
    r.parse (Labelled.label o :: value :: rest) = (Reading.mk a r.graph?).parse rest := by
  have hhelp : ¬ (Labelled.label o = "-h" ∨ Labelled.label o = "--help") := by cases o <;> decide
  have hverbose : ¬ (Labelled.label o = "-v" ∨ Labelled.label o = "--verbose") := by
    cases o <;> decide
  have hlabel : (Labelled.ofLabel? (Labelled.label o) : Option ValueOption) = some o := by
    cases o <;> decide
  rw [parse, Arguments.parseFrom, if_neg hhelp, if_neg hverbose, hset]
  · rfl
  · exact hlabel

theorem parse_words {g : ArgumentGroup}
    (hgraph : ∀ path ∈ g.graph?, path.toList.head? ≠ some '-' ∧ r.graph? = none) :
    r.parse (g.words ++ rest) = (r.add g).parse rest := by
  cases g with
  | graph path =>
    obtain ⟨hpath, hnone⟩ := hgraph path rfl
    exact parse_path hpath hnone
  | backend target =>
    have hset : r.arguments.set target.name .backend =
        .ok { r.arguments with backend? := some target } := by
      rw [Arguments.set, backendNamed_name]
      rfl
    exact parse_value hset
  | settings path => exact parse_value (o := .settings) rfl
  | outDir path => exact parse_value (o := .outDir) rfl
  | format f =>
    have hset : r.arguments.set f.extension .format = .ok { r.arguments with format := f } := by
      rw [Arguments.set, formatNamed_extension]
      rfl
    exact parse_value hset
  | verbose => rfl

/-! ## Reading all groups -/

/-- Groups with one graph file at most are read one after another. -/
theorem parse_flatMap_words (r : Reading) (groups : List ArgumentGroup) (rest : List String)
    (hone : (r.graphs groups).length ≤ 1)
    (hdash : ∀ path ∈ r.graphs groups, path.toList.head? ≠ some '-') :
    r.parse (groups.flatMap ArgumentGroup.words ++ rest) = (groups.foldl add r).parse rest := by
  induction groups generalizing r with
  | nil => rfl
  | cons g groups ih =>
    have hgraph : ∀ path ∈ g.graph?, path.toList.head? ≠ some '-' ∧ r.graph? = none := by
      intro path hpath
      have hmem : path ∈ r.graphs (g :: groups) := by
        simp [graphs, Option.mem_def.mp hpath]
      refine ⟨hdash path hmem, ?_⟩
      -- A second graph file would make two of them.
      cases hmet : r.graph? with
      | none => rfl
      | some other => simp [graphs, Option.mem_def.mp hpath, hmet] at hone
    have hsame : (r.add g).graphs groups = r.graphs (g :: groups) := by
      cases g with
      | graph path => simp [add, graphs, ArgumentGroup.graph?, (hgraph path rfl).2]
      | _ => rfl
    rw [List.flatMap_cons, List.append_assoc, parse_words hgraph, List.foldl_cons]
    exact ih _ (hsame ▸ hone) (hsame ▸ hdash)

end Reading

/-! ## Groups of given arguments -/

/-- The groups that say what the arguments are. -/
def Arguments.groups (a : Arguments) : List ArgumentGroup :=
  ArgumentGroup.graph a.graph :: (a.backend?.map ArgumentGroup.backend).toList ++
    (a.settings?.map ArgumentGroup.settings).toList ++
    (a.outDir?.map ArgumentGroup.outDir).toList ++ [ArgumentGroup.format a.format] ++
    if a.verbose then [ArgumentGroup.verbose] else []

/-- The group says something that is true of the arguments. -/
def ArgumentGroup.Describes (a : Arguments) : ArgumentGroup → Prop
  | graph path => a.graph = path
  | backend target => a.backend? = some target
  | settings path => a.settings? = some path
  | outDir path => a.outDir? = some path
  | format f => a.format = f
  | verbose => a.verbose

variable {a : Arguments}

theorem Arguments.describes_of_mem {g : ArgumentGroup} (h : g ∈ a.groups) : g.Describes a := by
  simp only [groups, List.cons_append, List.mem_cons, List.mem_append, Option.mem_toList,
    Option.map_eq_some_iff, List.not_mem_nil, or_false] at h
  obtain rfl | (((⟨_, h, rfl⟩ | ⟨_, h, rfl⟩) | ⟨_, h, rfl⟩) | rfl) | h := h
  · rfl
  · exact h
  · exact h
  · exact h
  · rfl
  · split at h
    · next hverbose =>
      obtain rfl := List.mem_singleton.mp h
      exact hverbose
    · cases h

/-- Groups that are true of the same arguments can be read in either order. -/
theorem Reading.add_comm {g g' : ArgumentGroup} (h : g.Describes a) (h' : g'.Describes a)
    (r : Reading) : (r.add g).add g' = (r.add g').add g := by
  cases g <;> cases g' <;> simp_all [ArgumentGroup.Describes, add]

theorem Arguments.foldl_groups (a : Arguments) :
    a.groups.foldl Reading.add {} = ⟨{ a with graph := "" }, some a.graph⟩ := by
  obtain ⟨graph, backend?, settings?, outDir?, format, verbose⟩ := a
  cases backend? <;> cases settings? <;> cases outDir? <;> cases verbose <;> rfl

theorem Arguments.filterMap_graph? (a : Arguments) :
    a.groups.filterMap ArgumentGroup.graph? = [a.graph] := by
  obtain ⟨graph, backend?, settings?, outDir?, format, verbose⟩ := a
  cases backend? <;> cases settings? <;> cases outDir? <;> cases verbose <;> rfl

/-- The groups of arguments whose graph file does not start with a dash read back as the arguments in
any order, and a request for help between two groups is met. -/
theorem Arguments.parse_groups {gs : List ArgumentGroup} (hgraph : a.graph.toList.head? ≠ some '-')
    (hgs : gs.Perm a.groups) :
    parse (gs.flatMap ArgumentGroup.words) = .ok (.compile a) ∧
      ∀ help ∈ ["-h", "--help"], ∀ before after, gs = before ++ after →
        parse (before.flatMap ArgumentGroup.words ++ help :: after.flatMap ArgumentGroup.words) =
          .ok .help := by
  have hgraphs : gs.filterMap ArgumentGroup.graph? = [a.graph] := by
    have hperm := hgs.filterMap ArgumentGroup.graph?
    rwa [a.filterMap_graph?, List.perm_singleton] at hperm
  constructor
  · have hall : Reading.graphs {} gs = [a.graph] := hgraphs
    have hread := Reading.parse_flatMap_words {} gs []
      (by simp [hall]) (by simpa [hall] using hgraph)
    rw [List.append_nil] at hread
    calc parse (gs.flatMap ArgumentGroup.words)
        = (gs.foldl Reading.add {}).parse [] := hread
      _ = (a.groups.foldl Reading.add {}).parse [] := by
          rw [hgs.foldl_eq' fun g hg g' hg' r ↦ Reading.add_comm
            (describes_of_mem (hgs.subset hg)) (describes_of_mem (hgs.subset hg')) r]
      _ = .ok (.compile a) := by
          rw [foldl_groups]
          rfl
  · rintro help hhelp before after rfl
    -- What stands in front of the request holds one graph file at most.
    obtain ⟨later, hbefore⟩ : ∃ later, Reading.graphs {} before ++ later = [a.graph] :=
      ⟨_, by rw [← hgraphs, List.filterMap_append]; rfl⟩
    have hlength := congrArg List.length hbefore
    rw [List.length_append, List.length_singleton] at hlength
    have hread := Reading.parse_flatMap_words {} before
      (help :: after.flatMap ArgumentGroup.words) (by omega) fun path hpath ↦ by
        have hmem : path ∈ [a.graph] := hbefore ▸ List.mem_append_left later hpath
        rwa [List.mem_singleton.mp hmem]
    refine hread.trans ?_
    obtain rfl | rfl : help = "-h" ∨ help = "--help" := by simpa using hhelp
    · rfl
    · rfl

/-- Arguments whose values look like options. -/
def dashedValues : Arguments where
  graph := "lit.ron"
  backend? := some .glslEs
  settings? := some "--help"
  outDir? := some "-v"
  format := .binary
  verbose := true

theorem Arguments.parse_groups_dashedValues :
    dashedValues.graph.toList.head? ≠ some '-' ∧
      [.verbose, .outDir "-v", .format .binary, .graph "lit.ron", .settings "--help",
        .backend .glslEs].Perm dashedValues.groups ∧
      parse ["-v", "--out-dir", "-v", "--format", "bin", "lit.ron", "--settings", "--help",
        "--backend", "glsl-es"] = .ok (.compile dashedValues) ∧
      parse ["-v", "--out-dir", "-v", "--format", "bin", "-h", "lit.ron", "--settings", "--help",
        "--backend", "glsl-es"] = .ok .help := by
  have hgraph : dashedValues.graph.toList.head? ≠ some '-' := by decide
  have hperm : [.verbose, .outDir "-v", .format .binary, .graph "lit.ron", .settings "--help",
      .backend .glslEs].Perm dashedValues.groups := by decide
  obtain ⟨hparse, hhelp⟩ := parse_groups hgraph hperm
  exact ⟨hgraph, hperm, hparse, hhelp "-h" (by simp) [.verbose, .outDir "-v", .format .binary]
    [.graph "lit.ron", .settings "--help", .backend .glslEs] rfl⟩

end ShaderGraph.Tool
