import ShaderGraph.Proofs.Data.Nesting
import ShaderGraph.Proofs.Source.OptionalLines
import ShaderGraph.Source.Stage

/-!
# Captured text

Bodies of branches and loops are written to a buffer of their own and then spliced into the buffer
around them. The text comes out as if it had been written in place: the levels of the two buffers add
up, lines that are not empty are indented by both, and empty lines stay empty.
-/

namespace ShaderGraph

/-- The lines of a text without carriage returns hold no ends of lines. -/
theorem isLine_of_mem_textLines {text : String} (h : '\r' ∉ text.toList) :
    ∀ l ∈ textLines text, IsLine l := by
  suffices hlines : ∀ line cs : List Char, (∀ c ∈ line, c ≠ '\n' ∧ c ≠ '\r') → '\r' ∉ cs →
      ∀ l ∈ linesFrom line cs, ∀ c ∈ l, c ≠ '\n' ∧ c ≠ '\r' by
    intro l hl
    obtain ⟨cs, hcs, rfl⟩ := List.mem_map.mp hl
    simpa [IsLine] using hlines [] text.toList (by simp) h cs hcs
  intro line cs hline hcs
  induction line, cs using linesFrom.induct with
  | case1 line hempty => simp [linesFrom, hempty]
  | case2 line hempty => simpa [linesFrom, hempty] using hline
  | case3 line cs ih =>
    have hhead : line.head? ≠ some '\r' := fun hhead ↦
      (hline '\r' (List.mem_of_head? hhead)).2 rfl
    rw [linesFrom, if_neg hhead]
    exact List.forall_mem_cons.mpr ⟨by simpa using hline,
      ih (by simp) fun hmem ↦ hcs (List.mem_cons_of_mem _ hmem)⟩
  | case4 line c cs hc ih =>
    rw [linesFrom.eq_3 _ _ _ hc]
    refine ih (List.forall_mem_cons.mpr ⟨⟨by simpa using hc, ?_⟩, hline⟩) fun hmem ↦
      hcs (List.mem_cons_of_mem _ hmem)
    rintro rfl
    exact hcs List.mem_cons_self

namespace CodeBuffer

/-! ## Actions -/

/-- A step in which a buffer is written. -/
inductive Action
  | line (text : String)
  | indent
  | dedent
  | openBlock
  | closeBlock
  | splice (text : String)
deriving DecidableEq, Repr

namespace Action

/-- The action leaves the buffer a level deeper. -/
def raises : Action → Bool
  | indent | openBlock => true
  | line _ | dedent | closeBlock | splice _ => false

/-- The action leaves a level. -/
def lowers : Action → Bool
  | dedent | closeBlock => true
  | line _ | indent | openBlock | splice _ => false

/-- The action writes a line that is not empty and holds no end of a line, or a text without carriage
returns, or none. -/
def IsPlain : Action → Prop
  | line text => IsLine text ∧ text ≠ ""
  | splice text => '\r' ∉ text.toList
  | indent | dedent | openBlock | closeBlock => True

instance : DecidablePred IsPlain
  | line text => inferInstanceAs (Decidable (IsLine text ∧ text ≠ ""))
  | splice text => inferInstanceAs (Decidable ('\r' ∉ text.toList))
  | indent | dedent | openBlock | closeBlock => isTrue trivial

end Action

def perform (b : CodeBuffer) : Action → CodeBuffer
  | .line text => b.line text
  | .indent => b.indent
  | .dedent => b.dedent
  | .openBlock => b.openBlock
  | .closeBlock => b.closeBlock
  | .splice text => b.splice text

def performAll (b : CodeBuffer) (actions : List Action) : CodeBuffer :=
  actions.foldl perform b

theorem level_perform (b : CodeBuffer) (a : Action) :
    (b.perform a).level = b.level + a.raises.toNat - a.lowers.toNat := by
  cases a with
  | splice text => exact b.level_splice text
  | _ => rfl

/-! ## Writing in place -/

/-- What has been captured in `c` has been written to `b` in place, which made it `d`. -/
structure InPlace (b c d : CodeBuffer) : Prop where
  endsLine : EndsLine c.text
  level : d.level = b.level + c.level
  text : d.text = (b.splice c.text).text

namespace InPlace

variable {b c d : CodeBuffer} {s : String}

theorem empty (b : CodeBuffer) : b.InPlace {} b :=
  ⟨endsLine_empty, rfl, rfl⟩

theorem line (h : b.InPlace c d) (hs : IsLine s) (hne : s ≠ "") :
    b.InPlace (c.line s) (d.line s) := by
  refine ⟨endsLine_line c s, h.level, ?_⟩
  have hindented : indentation c.level ++ s ≠ "" := by simp [hne]
  rw [text_line c, splice_append b h.endsLine,
    splice_line _ ((isLine_indentation c.level).append hs) hindented, text_line, text_line, h.text,
    h.level, level_splice, indentation_add]
  simp only [String.append_assoc]

theorem emptyLine (h : b.InPlace c d) : b.InPlace (c.spliceLine "") (d.spliceLine "") := by
  have hone : EndsLine "\n" := by simp [EndsLine]
  refine ⟨h.endsLine.append hone, h.level, ?_⟩
  change d.text ++ "\n" = (b.splice (c.text ++ "\n")).text
  rw [splice_append b h.endsLine, h.text]
  rfl

theorem indent (h : b.InPlace c d) : b.InPlace c.indent d.indent :=
  ⟨h.endsLine, congrArg (· + 1) h.level, h.text⟩

/-- The level must not be that at which the capture started, below which only `d` can go. -/
theorem dedent (h : b.InPlace c d) (hlevel : 0 < c.level) : b.InPlace c.dedent d.dedent := by
  refine ⟨h.endsLine, ?_, h.text⟩
  have hd := h.level
  change d.level - 1 = b.level + (c.level - 1)
  omega

theorem splice (h : b.InPlace c d) {text : String} (htext : '\r' ∉ text.toList) :
    b.InPlace (c.splice text) (d.splice text) := by
  have hlines := isLine_of_mem_textLines htext
  unfold CodeBuffer.splice
  generalize textLines text = lines at hlines
  induction lines generalizing c d with
  | nil => exact h
  | cons l ls ih =>
    obtain ⟨hl, hls⟩ := List.forall_mem_cons.mp hlines
    refine ih ?_ hls
    by_cases hempty : l = ""
    · subst hempty
      exact h.emptyLine
    · simpa [spliceLine, hempty] using h.line hl hempty

/-- Each action does the same in the capture and in place. -/
theorem perform (h : b.InPlace c d) {a : Action} (hplain : a.IsPlain)
    (hlevel : a.lowers = true → 0 < c.level) : b.InPlace (c.perform a) (d.perform a) := by
  cases a with
  | line text => exact h.line hplain.1 hplain.2
  | indent => exact h.indent
  | dedent => exact h.dedent (hlevel rfl)
  | openBlock => exact (h.line (by decide) (by decide)).indent
  | closeBlock => exact (h.dedent (hlevel rfl)).line (by decide) (by decide)
  | splice text => exact h.splice hplain

end InPlace

variable {actions : List Action}

theorem inPlace_performAll (b : CodeBuffer) (hplain : ∀ a ∈ actions, a.IsPlain)
    (hnested : IsNested Action.raises Action.lowers actions) :
    b.InPlace (performAll {} actions) (b.performAll actions) := by
  induction actions using List.reverseRecOn with
  | nil => exact .empty b
  | append_singleton actions a ih =>
    obtain ⟨hbefore, ha⟩ := List.forall_mem_append.mp hplain
    simp only [performAll, List.foldl_append, List.foldl_cons, List.foldl_nil]
    refine (ih hbefore hnested.init).perform (ha a List.mem_cons_self) fun hlowers ↦ ?_
    have hraises : a.raises = false := by
      cases a with
      | indent | openBlock => cases hlowers
      | _ => rfl
    exact hnested.level_pos level_perform {} hraises hlowers

/-- Actions that leave all levels that they enter have the same effect on a buffer whether what they write
is captured and spliced or written in place. -/
theorem splice_performAll_of_balanced (b : CodeBuffer) (hplain : ∀ a ∈ actions, a.IsPlain)
    (hbalanced : IsBalanced Action.raises Action.lowers actions) :
    b.splice (performAll {} actions).text = b.performAll actions := by
  have htext := (b.inPlace_performAll hplain hbalanced.nested).text
  have hcount := hbalanced.nested.level_foldl level_perform b
  have hlevel : (b.performAll actions).level = b.level := by
    rw [hbalanced.closed] at hcount
    exact Nat.add_right_cancel hcount
  rw [← b.level_splice (performAll {} actions).text] at hlevel
  calc b.splice (performAll {} actions).text
      = ⟨(b.splice (performAll {} actions).text).text,
          (b.splice (performAll {} actions).text).level⟩ := rfl
    _ = ⟨(b.performAll actions).text, (b.performAll actions).level⟩ := by rw [htext, hlevel]
    _ = b.performAll actions := rfl

/-- Actions that never go below the level at which they start give the same text whether what they write is
captured and spliced or written in place. -/
theorem text_splice_performAll (b : CodeBuffer) (actions : List Action)
    (hplain : ∀ a ∈ actions, a.IsPlain)
    (hnested : IsNested Action.raises Action.lowers actions) :
    (b.splice (performAll {} actions).text).text = (b.performAll actions).text :=
  (b.inPlace_performAll hplain hnested).text.symm

/-- A block that is open in the end, with a text in it that has an empty line and no end of a line behind
its last one. -/
theorem text_splice_performAll_openBlock :
    (∀ a ∈ [Action.line "for (;;)", .openBlock, .splice "a;\n\n\tb;", .indent, .line "c;", .dedent],
      a.IsPlain) ∧
    IsNested Action.raises Action.lowers
      [.line "for (;;)", .openBlock, .splice "a;\n\n\tb;", .indent, .line "c;", .dedent] ∧
    (splice ⟨"x", 1⟩ (performAll {}
      [.line "for (;;)", .openBlock, .splice "a;\n\n\tb;", .indent, .line "c;", .dedent]).text).text =
    (performAll ⟨"x", 1⟩
      [.line "for (;;)", .openBlock, .splice "a;\n\n\tb;", .indent, .line "c;", .dedent]).text := by
  have hplain : ∀ a ∈ [Action.line "for (;;)", .openBlock, .splice "a;\n\n\tb;", .indent, .line "c;",
    .dedent], a.IsPlain := by decide
  have hnested : IsNested Action.raises Action.lowers [.line "for (;;)", .openBlock,
    .splice "a;\n\n\tb;", .indent, .line "c;", .dedent] := by decide
  exact ⟨hplain, hnested, text_splice_performAll _ _ hplain hnested⟩

end CodeBuffer

/-- A stage whose body is captured and then spliced is the stage whose body is written in place. -/
theorem StageShader.splice_endCapture {s t : StageShader} {text : String}
    {actions : List CodeBuffer.Action} (hplain : ∀ a ∈ actions, a.IsPlain)
    (hbalanced : IsBalanced CodeBuffer.Action.raises CodeBuffer.Action.lowers actions)
    (hcapture : (s.beginCapture.modifyBody fun b ↦ b.performAll actions).endCapture = (text, t)) :
    (t.modifyBody fun b ↦ b.splice text) = s.modifyBody fun b ↦ b.performAll actions := by
  cases hcapture
  congr 1
  funext b
  exact b.splice_performAll_of_balanced hplain hbalanced

end ShaderGraph
