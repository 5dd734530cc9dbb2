import ShaderGraph.Proofs.Source.Lines

/-!
# Optional lines

Two texts agree but for optional lines if they have the same lines, and in addition lines of some kind
that the other one may be without. Buffers that are written to in the same way agree like this, and so do
buffers into which such texts are spliced. Once the optional lines are deleted the texts are the same.
Other relations of texts have these two properties as well, and what follows from them is stated for all
of these.
-/

namespace ShaderGraph

/-- The texts have the same lines, but for whole lines of a kind that one of them has in addition. -/
inductive AgreeBut (optional : String → Prop) : String → String → Prop
  | empty : AgreeBut optional "" ""
  | both {a b c : String} (h : AgreeBut optional a b) (hc : EndsLine c) :
    AgreeBut optional (a ++ c) (b ++ c)
  | left {a b line : String} (h : AgreeBut optional a b) (hline : optional line) :
    AgreeBut optional (a ++ (line ++ "\n")) b
  | right {a b line : String} (h : AgreeBut optional a b) (hline : optional line) :
    AgreeBut optional a (b ++ (line ++ "\n"))

namespace AgreeBut

variable {optional optional' : String → Prop} {a b c d : String}

theorem refl (ha : EndsLine a) : AgreeBut optional a a := by
  simpa using AgreeBut.empty.both ha

theorem endsLine (h : AgreeBut optional a b) : EndsLine a ∧ EndsLine b := by
  have hline (line : String) : EndsLine (line ++ "\n") := by simp [EndsLine]
  induction h with
  | empty => exact ⟨endsLine_empty, endsLine_empty⟩
  | both _ hc ih => exact ⟨ih.1.append hc, ih.2.append hc⟩
  | left _ _ ih => exact ⟨ih.1.append (hline _), ih.2⟩
  | right _ _ ih => exact ⟨ih.1, ih.2.append (hline _)⟩

theorem mono (h : AgreeBut optional a b) (hsub : ∀ line, optional line → optional' line) :
    AgreeBut optional' a b := by
  induction h with
  | empty => exact .empty
  | both _ hc ih => exact ih.both hc
  | left _ hline ih => exact ih.left (hsub _ hline)
  | right _ hline ih => exact ih.right (hsub _ hline)

theorem append (h : AgreeBut optional a b) (h' : AgreeBut optional c d) :
    AgreeBut optional (a ++ c) (b ++ d) := by
  induction h' with
  | empty => simpa using h
  | both _ hc ih =>
    rw [← String.append_assoc, ← String.append_assoc]
    exact ih.both hc
  | left _ hline ih =>
    rw [← String.append_assoc]
    exact ih.left hline
  | right _ hline ih =>
    rw [← String.append_assoc]
    exact ih.right hline

end AgreeBut

/-! ## Deletion -/

/-- The text without the lines of a kind. -/
def deleteLines (p : String → Bool) (text : String) : String :=
  "\n".intercalate (((text.toList.splitOn '\n').map String.ofList).filter fun line ↦ !p line)

section Deletion

variable {optional : String → Prop} {p : String → Bool} {a b : String}

theorem splitOn_append_of_endsLine (ha : EndsLine a) :
    ∃ init, ∀ rest, (a.toList ++ rest).splitOn '\n' = init ++ rest.splitOn '\n' := by
  obtain hnil | ⟨cs, c, hcs⟩ := a.toList.eq_nil_or_concat
  · exact ⟨[], fun rest ↦ by rw [hnil]; rfl⟩
  · obtain rfl := ha c (by simp [hcs])
    refine ⟨cs.splitOn '\n', fun rest ↦ ?_⟩
    rw [hcs, List.concat_eq_append, List.append_assoc]
    exact List.splitOnP_append_cons cs rest rfl

theorem splitOn_line {line : String} (hline : IsLine line) (rest : List Char) :
    (line.toList ++ '\n' :: rest).splitOn '\n' = line.toList :: rest.splitOn '\n' := by
  have hfeed : '\n' ∉ line.toList := fun h ↦ (hline _ h).1 rfl
  have hone := List.splitOn_eq_singleton hfeed
  rw [List.splitOn, List.splitOnP_append_cons _ _ rfl]
  exact congrArg (· ++ _) hone

/-- Texts that agree but for optional lines are the same without them. -/
theorem AgreeBut.deleteLines_eq (h : AgreeBut optional a b)
    (hoptional : ∀ line, optional line → IsLine line ∧ p line) :
    deleteLines p a = deleteLines p b := by
  have hdeleted {a line : String} (ha : EndsLine a) (hline : optional line) (rest : List Char) :
      ((((a ++ (line ++ "\n")).toList ++ rest).splitOn '\n').map String.ofList).filter
          (fun line ↦ !p line) =
        (((a.toList ++ rest).splitOn '\n').map String.ofList).filter fun line ↦ !p line := by
    obtain ⟨init, hinit⟩ := splitOn_append_of_endsLine ha
    obtain ⟨hline, hp⟩ := hoptional line hline
    have htext : (a ++ (line ++ "\n")).toList ++ rest = a.toList ++ (line.toList ++ '\n' :: rest) := by
      simp
    rw [htext, hinit, hinit, splitOn_line hline, List.map_append, List.map_append, List.filter_append,
      List.filter_append, List.map_cons, String.ofList_toList, List.filter_cons_of_neg (by simp [hp])]
  suffices hrest : ∀ rest, ((((a.toList ++ rest).splitOn '\n').map String.ofList).filter
      fun line ↦ !p line) = (((b.toList ++ rest).splitOn '\n').map String.ofList).filter
      fun line ↦ !p line by
    have hend := hrest []
    rw [List.append_nil, List.append_nil] at hend
    rw [deleteLines, hend, deleteLines]
  induction h with
  | empty => exact fun _ ↦ rfl
  | both _ _ ih =>
    intro rest
    rw [String.toList_append, String.toList_append, List.append_assoc, List.append_assoc]
    exact ih _
  | left h hline ih => exact fun rest ↦ (hdeleted h.endsLine.1 hline rest).trans (ih rest)
  | right h hline ih => exact fun rest ↦ (ih rest).trans (hdeleted h.endsLine.2 hline rest).symm

end Deletion

/-! ## Buffers -/

namespace CodeBuffer

/-- Lines of a kind that they do not leave when they are indented. -/
structure Indentable (optional : String → Prop) : Prop where
  isLine : ∀ line, optional line → IsLine line
  nonempty : ∀ line, optional line → line ≠ ""
  indent : ∀ line level, optional line → optional (indentation level ++ line)

/-- The buffers are at the same level and hold related texts. -/
structure Agrees (agree : String → String → Prop) (b c : CodeBuffer) : Prop where
  level : c.level = b.level
  text : agree b.text c.text

/-- The buffers are at the same level and hold texts that agree but for optional lines. -/
abbrev AgreesBut (optional : String → Prop) (b c : CodeBuffer) : Prop :=
  b.Agrees (AgreeBut optional) c

/-- Texts that are related stay so if the same lines are added to both. -/
class KeepsLines (agree : String → String → Prop) : Prop where
  append {a b c : String} (h : agree a b) (hc : EndsLine c) : agree (a ++ c) (b ++ c)

/-- Texts that are related stay so if related texts are spliced into them. -/
class KeepsBlocks (agree : String → String → Prop) : Prop extends KeepsLines agree where
  empty : agree "" ""
  splice {a b s t : String} (level : Nat) (h : agree a b) (hst : agree s t) :
    agree (CodeBuffer.splice ⟨a, level⟩ s).text (CodeBuffer.splice ⟨b, level⟩ t).text

/-- A line that related texts may have or leave out at every level. -/
def Skips (agree : String → String → Prop) (line : String) : Prop :=
  ∀ level a b, agree a b →
    agree (a ++ (indentation level ++ line ++ "\n")) b ∧
      agree a (b ++ (indentation level ++ line ++ "\n"))

instance keepsBlocks_eq : KeepsBlocks (Eq (α := String)) where
  append h _ := by rw [h]
  empty := rfl
  splice _ h hst := by rw [h, hst]

namespace Agrees

variable {agree : String → String → Prop} {b c : CodeBuffer}

theorem line [KeepsLines agree] (h : b.Agrees agree c) (s : String) :
    (b.line s).Agrees agree (c.line s) := by
  refine ⟨h.level, ?_⟩
  simp only [CodeBuffer.line, h.level, String.append_assoc]
  exact KeepsLines.append h.text (by simp [EndsLine])

theorem lines [KeepsLines agree] (h : b.Agrees agree c) (ls : List String) :
    (ls.foldl CodeBuffer.line b).Agrees agree (ls.foldl CodeBuffer.line c) := by
  induction ls generalizing b c with
  | nil => exact h
  | cons l ls ih => exact ih (h.line l)

/-- Buffers that hold the same text are the same. -/
theorem eq (h : b.Agrees Eq c) : c = b := by
  obtain ⟨text, level⟩ := b
  obtain ⟨text', level'⟩ := c
  obtain rfl : level' = level := h.level
  obtain rfl : text = text' := h.text
  rfl

theorem indent (h : b.Agrees agree c) : b.indent.Agrees agree c.indent :=
  ⟨congrArg (· + 1) h.level, h.text⟩

theorem dedent (h : b.Agrees agree c) : b.dedent.Agrees agree c.dedent :=
  ⟨congrArg (· - 1) h.level, h.text⟩

theorem openBlock [KeepsLines agree] (h : b.Agrees agree c) : b.openBlock.Agrees agree c.openBlock :=
  (h.line _).indent

theorem closeBlock [KeepsLines agree] (h : b.Agrees agree c) :
    b.closeBlock.Agrees agree c.closeBlock :=
  h.dedent.line _

theorem splice [KeepsBlocks agree] (h : b.Agrees agree c) {s t : String} (hst : agree s t) :
    (b.splice s).Agrees agree (c.splice t) := by
  obtain ⟨text, level⟩ := b
  obtain ⟨text', level'⟩ := c
  obtain rfl : level' = level := h.level
  exact ⟨by rw [level_splice, level_splice], KeepsBlocks.splice level' h.text hst⟩

/-- A line that the first buffer has in addition. -/
theorem skipLeft {line : String} (h : b.Agrees agree c) (hline : Skips agree line) :
    (b.line line).Agrees agree c :=
  ⟨h.level, text_line b line ▸ (hline b.level _ _ h.text).1⟩

theorem skipRight {line : String} (h : b.Agrees agree c) (hline : Skips agree line) :
    b.Agrees agree (c.line line) :=
  ⟨h.level, text_line c line ▸ (hline c.level _ _ h.text).2⟩

end Agrees

variable {optional optional' : String → Prop} {b c : CodeBuffer} {s t : String}

instance : KeepsLines (AgreeBut optional) where
  append := .both

namespace AgreesBut

theorem refl (hb : EndsLine b.text) : b.AgreesBut optional b :=
  ⟨rfl, .refl hb⟩

theorem mono (h : b.AgreesBut optional c) (hsub : ∀ line, optional line → optional' line) :
    b.AgreesBut optional' c :=
  ⟨h.level, h.text.mono hsub⟩

theorem left (h : b.AgreesBut optional c) (hs : optional (indentation b.level ++ s)) :
    (b.line s).AgreesBut optional c := by
  refine ⟨h.level, ?_⟩
  rw [text_line]
  exact h.text.left hs

theorem right (h : b.AgreesBut optional c) (hs : optional (indentation c.level ++ s)) :
    b.AgreesBut optional (c.line s) := by
  refine ⟨h.level, ?_⟩
  rw [text_line]
  exact h.text.right hs

end AgreesBut

/-! ### Splicing -/

theorem splice_append (b : CodeBuffer) (hs : EndsLine s) (t : String) :
    b.splice (s ++ t) = (b.splice s).splice t := by
  rw [splice, textLines_append hs, List.foldl_append]
  rfl

theorem splice_line (b : CodeBuffer) (hs : IsLine s) (hne : s ≠ "") :
    b.splice (s ++ "\n") = b.line s := by
  have hline := textLines_line (b := {}) endsLine_empty hs
  have htext : (({} : CodeBuffer).line s).text = s ++ "\n" := by
    simp [line]
  rw [htext] at hline
  rw [splice, hline]
  simp [spliceLine, hne]

theorem AgreesBut.spliceText (h : b.AgreesBut optional c) (text : String) :
    (b.splice text).AgreesBut optional (c.splice text) := by
  refine ⟨?_, ?_⟩
  · rw [level_splice c, level_splice b, h.level]
  · rw [text_splice, text_splice c, h.level]
    exact h.text.both (endsLine_splice endsLine_empty _)

/-- Lines that agree but for optional ones still do at another level. -/
theorem AgreesBut.splice (h : b.AgreesBut optional c) (hoptional : Indentable optional')
    (hsub : ∀ line, optional' line → optional line) (htext : AgreeBut optional' s t) :
    (b.splice s).AgreesBut optional (c.splice t) := by
  have hadded {b : CodeBuffer} {a line : String} (ha : EndsLine a) (hline : optional' line) :
      b.splice (a ++ (line ++ "\n")) = (b.splice a).line line := by
    rw [splice_append b ha, splice_line _ (hoptional.isLine _ hline) (hoptional.nonempty _ hline)]
  induction htext with
  | empty => exact h
  | both htext _ ih =>
    rw [splice_append b htext.endsLine.1, splice_append c htext.endsLine.2]
    exact ih.spliceText _
  | left htext hline ih =>
    rw [hadded htext.endsLine.1 hline]
    exact ih.left (hsub _ (hoptional.indent _ _ hline))
  | right htext hline ih =>
    rw [hadded htext.endsLine.2 hline]
    exact ih.right (hsub _ (hoptional.indent _ _ hline))

theorem Indentable.keepsBlocks (h : Indentable optional) : KeepsBlocks (AgreeBut optional) where
  empty := .empty
  splice {a b _ _} level hab hst :=
    (AgreesBut.splice (b := ⟨a, level⟩) (c := ⟨b, level⟩) ⟨rfl, hab⟩ h (fun _ hline ↦ hline) hst).text

theorem Indentable.skips (h : Indentable optional) {line : String} (hline : optional line) :
    Skips (AgreeBut optional) line := by
  intro level a b hab
  have hindented := h.indent line level hline
  exact ⟨hab.left hindented, hab.right hindented⟩

end CodeBuffer

end ShaderGraph
