import ShaderGraph.Proofs.Text.Phrase
import ShaderGraph.Source.Buffer

/-!
# Lines of code buffers

What is written to a buffer ends in line feeds, so a buffer can be read back as the list of the lines
that were written, as long as none of them holds the end of a line. What is spliced gives the lines
that it would give to an empty buffer of the same level.
-/

namespace ShaderGraph

/-! ## Tokens

Lines and spliced texts end in line feeds, so a buffer that is written through them holds the tokens
of what was written, one after another. Indentation and the ends of lines carry no tokens.
-/

/-! ### Blank texts -/

theorem EndsApart.append_endsApart {a m : String} (ha : EndsApart a) (hm : EndsApart m) :
    EndsApart (a ++ m) := by
  by_cases hne : m = ""
  · simpa [hne] using ha
  · exact hm.append hne

theorem tokens_ofList_blanks {cs : List Char} (h : ∀ c ∈ cs, glyphOf c = .blank) :
    tokens (String.ofList cs) = [] := by
  induction cs with
  | nil => rfl
  | cons c cs ih =>
    have hc := h c List.mem_cons_self
    have happart : EndsApart (String.ofList [c]) := by
      intro d hd
      obtain rfl : d = c := by simpa [eq_comm] using hd
      rw [hc]
      rfl
    have hone : tokens (String.ofList [c]) = [] := by
      rw [tokens, String.toList_ofList]
      simp [lexemes, prependChar, Lexeme.token?, hc]
    rw [← List.singleton_append, String.ofList_append, tokens_append_of_endsApart happart, hone,
      ih fun d hd ↦ h d (List.mem_cons_of_mem c hd), List.nil_append]

theorem endsApart_blanks {cs : List Char} (h : ∀ c ∈ cs, glyphOf c = .blank) :
    EndsApart (String.ofList cs) := by
  intro c hc
  rw [String.toList_ofList] at hc
  rw [h c (List.mem_of_getLast? hc)]
  rfl

/-- A blank character separates the texts before and after it. -/
theorem tokens_append_blank {c : Char} (hc : glyphOf c = .blank) (as bs : List Char) :
    tokens (String.ofList (as ++ c :: bs)) = tokens (String.ofList as) ++ tokens (String.ofList bs) := by
  have hstart : StartsApart (String.ofList (c :: bs)) := by
    intro d hd
    obtain rfl : c = d := by simpa using hd
    rw [hc]
    rfl
  have hblank : ∀ d ∈ [c], glyphOf d = .blank := by simpa using hc
  rw [String.ofList_append, tokens_append_of_startsApart hstart, ← List.singleton_append,
    String.ofList_append, tokens_append_of_endsApart (endsApart_blanks hblank),
    tokens_ofList_blanks hblank, List.nil_append]

/-! ### Lines -/

theorem tokens_linesFrom (line cs : List Char) :
    (linesFrom line cs).flatMap (fun l ↦ tokens (String.ofList l)) =
      tokens (String.ofList (line.reverse ++ cs)) := by
  have hfeed : glyphOf '\n' = .blank := by decide
  have hreturn : glyphOf '\r' = .blank := by decide
  induction line, cs using linesFrom.induct with
  | case1 line hempty =>
    rw [linesFrom, if_pos hempty, List.isEmpty_iff.mp hempty]
    rfl
  | case2 line hempty =>
    rw [linesFrom, if_neg hempty]
    simp
  | case3 line cs ih =>
    rw [linesFrom, List.flatMap_cons, ih, tokens_append_blank hfeed]
    congr 1
    split
    · next hhead =>
      obtain ⟨rest, rfl⟩ : ∃ rest, line = '\r' :: rest := by
        cases line with
        | nil => cases hhead
        | cons c rest => exact ⟨rest, by simp_all⟩
      rw [List.reverse_cons, tokens_append_blank hreturn]
      simp
    · rfl
  | case4 line c cs hc ih =>
    rw [linesFrom.eq_3 _ _ _ hc, ih]
    simp

/-- The tokens of a text are those of its lines. -/
theorem tokens_textLines (text : String) : (textLines text).flatMap tokens = tokens text := by
  have h := tokens_linesFrom [] text.toList
  rw [textLines, List.flatMap_map]
  simpa using h

namespace CodeBuffer

variable {b : CodeBuffer}

theorem endsApart_line (b : CodeBuffer) (s : String) : EndsApart (b.line s).text :=
  EndsApart.append (by decide) (by decide)

theorem endsApart_indentation (h : EndsApart b.text) :
    EndsApart (b.text ++ String.ofList (List.replicate b.level '\t')) := by
  refine h.append_endsApart (endsApart_blanks fun c hc ↦ ?_)
  rw [List.eq_of_mem_replicate hc]
  decide

theorem tokens_line (h : EndsApart b.text) (s : String) :
    tokens (b.line s).text = tokens b.text ++ tokens s := by
  have hfeed : StartsApart "\n" := by decide
  have htabs : tokens (String.ofList (List.replicate b.level '\t')) = [] :=
    tokens_ofList_blanks fun c hc ↦ by rw [List.eq_of_mem_replicate hc]; decide
  rw [line, tokens_append_of_startsApart hfeed,
    tokens_append_of_endsApart (endsApart_indentation h), tokens_append_of_endsApart h, htabs]
  have hnone : tokens "\n" = [] := by decide
  simp [hnone]

theorem endsApart_spliceLine (h : EndsApart b.text) (s : String) :
    EndsApart (b.spliceLine s).text := by
  unfold spliceLine
  split
  · exact h.append_endsApart (by decide)
  · exact b.endsApart_line s

theorem tokens_spliceLine (h : EndsApart b.text) (s : String) :
    tokens (b.spliceLine s).text = tokens b.text ++ tokens s := by
  unfold spliceLine
  split
  · next hempty =>
    have hs : s = "" := by simpa using hempty
    have hnone : tokens "\n" = [] := by decide
    rw [tokens_append_of_endsApart h, hs, hnone]
    rfl
  · exact tokens_line h s

theorem splice_lines {lines : List String} (h : EndsApart b.text) :
    EndsApart (lines.foldl spliceLine b).text ∧
      tokens (lines.foldl spliceLine b).text = tokens b.text ++ lines.flatMap tokens := by
  induction lines generalizing b with
  | nil => exact ⟨h, by simp⟩
  | cons l ls ih =>
    obtain ⟨hends, htokens⟩ := ih (endsApart_spliceLine h l)
    refine ⟨hends, ?_⟩
    rw [List.foldl_cons, htokens, tokens_spliceLine h, List.flatMap_cons, List.append_assoc]

theorem endsApart_splice (h : EndsApart b.text) (text : String) :
    EndsApart (b.splice text).text :=
  (splice_lines h).1

theorem tokens_splice (h : EndsApart b.text) (text : String) :
    tokens (b.splice text).text = tokens b.text ++ tokens text := by
  rw [splice, (splice_lines h).2, tokens_textLines]

theorem endsApart_openBlock (b : CodeBuffer) : EndsApart b.openBlock.text :=
  b.endsApart_line _

theorem tokens_openBlock (h : EndsApart b.text) :
    tokens b.openBlock.text = tokens b.text ++ [Token.mark "\x7b"] := by
  have hbrace : tokens "\x7b" = [.mark "\x7b"] := by decide
  rw [← hbrace]
  exact tokens_line h _

theorem endsApart_closeBlock (b : CodeBuffer) : EndsApart b.closeBlock.text :=
  b.dedent.endsApart_line _

theorem tokens_closeBlock (h : EndsApart b.text) :
    tokens b.closeBlock.text = tokens b.text ++ [Token.mark "\x7d"] := by
  have hbrace : tokens "\x7d" = [.mark "\x7d"] := by decide
  rw [← hbrace]
  exact tokens_line (b := b.dedent) h _

/-- The buffer has grown by the tokens. -/
structure Grows (b c : CodeBuffer) (ts : List Token) : Prop where
  endsApart : EndsApart c.text
  tokens : tokens c.text = ShaderGraph.tokens b.text ++ ts

namespace Grows

variable {c d : CodeBuffer} {ts us : List Token}

theorem refl (h : EndsApart b.text) : Grows b b [] :=
  ⟨h, by simp⟩

theorem trans (h : Grows b c ts) (h' : Grows c d us) : Grows b d (ts ++ us) :=
  ⟨h'.endsApart, by rw [h'.tokens, h.tokens, List.append_assoc]⟩

theorem line (h : Grows b c ts) (s : String) : Grows b (c.line s) (ts ++ ShaderGraph.tokens s) :=
  h.trans ⟨c.endsApart_line s, tokens_line h.endsApart s⟩

theorem splice (h : Grows b c ts) (text : String) :
    Grows b (c.splice text) (ts ++ ShaderGraph.tokens text) :=
  h.trans ⟨endsApart_splice h.endsApart text, tokens_splice h.endsApart text⟩

theorem openBlock (h : Grows b c ts) : Grows b c.openBlock (ts ++ [Token.mark "\x7b"]) :=
  h.trans ⟨c.endsApart_openBlock, tokens_openBlock h.endsApart⟩

theorem closeBlock (h : Grows b c ts) : Grows b c.closeBlock (ts ++ [Token.mark "\x7d"]) :=
  h.trans ⟨c.endsApart_closeBlock, tokens_closeBlock h.endsApart⟩

theorem lines (h : Grows b c ts) (ls : List String) :
    Grows b (ls.foldl CodeBuffer.line c) (ts ++ ls.flatMap ShaderGraph.tokens) := by
  induction ls generalizing c ts with
  | nil => simpa using h
  | cons l ls ih => simpa [List.append_assoc] using ih (h.line l)

end Grows

end CodeBuffer

/-! ## Lists of lines -/

theorem linesFrom_line (line cs rest : List Char) (h : ∀ c ∈ cs, c ≠ '\n' ∧ c ≠ '\r')
    (hline : line.head? ≠ some '\r') :
    linesFrom line (cs ++ '\n' :: rest) = (line.reverse ++ cs) :: linesFrom [] rest := by
  induction cs generalizing line with
  | nil => rw [List.nil_append, linesFrom, if_neg hline, List.append_nil]
  | cons c cs ih =>
    obtain ⟨hfeed, hreturn⟩ := h c List.mem_cons_self
    rw [List.cons_append, linesFrom.eq_3 _ _ _ (by simpa using hfeed),
      ih (c :: line) (fun d hd ↦ h d (List.mem_cons_of_mem c hd)) (by simpa using hreturn)]
    simp

/-- A line feed ends what has been read, whatever follows it. -/
theorem linesFrom_append (line cs rest : List Char) :
    linesFrom line (cs ++ '\n' :: rest) = linesFrom line (cs ++ ['\n']) ++ linesFrom [] rest := by
  induction line, cs using linesFrom.induct with
  | case1 line => simp [linesFrom]
  | case2 line => simp [linesFrom]
  | case3 line cs ih => simp only [List.cons_append, linesFrom, ih]
  | case4 line c cs hc ih =>
    simp only [List.cons_append, linesFrom.eq_3 _ _ _ hc, ih]

/-- A text that is not empty has a line. -/
theorem linesFrom_ne_nil {line cs : List Char} (h : line ≠ [] ∨ cs ≠ []) : linesFrom line cs ≠ [] := by
  induction line, cs using linesFrom.induct with
  | case1 line hempty => exact absurd (List.isEmpty_iff.mp hempty) (by simpa using h)
  | case2 line hempty => simp [linesFrom, hempty]
  | case3 line cs => simp [linesFrom]
  | case4 line c cs hc ih =>
    rw [linesFrom.eq_3 _ _ _ hc]
    exact ih (.inl (List.cons_ne_nil c line))

/-- The text is empty or ends in a line feed. -/
def EndsLine (s : String) : Prop :=
  ∀ c ∈ s.toList.getLast?, c = '\n'

theorem endsLine_empty : EndsLine "" := by
  simp [EndsLine]

@[simp]
theorem textLines_empty : textLines "" = [] :=
  rfl

theorem EndsLine.append {a b : String} (ha : EndsLine a) (hb : EndsLine b) : EndsLine (a ++ b) := by
  intro c hc
  rw [String.toList_append, List.getLast?_append, Option.mem_def, Option.or_eq_some_iff] at hc
  obtain hc | ⟨-, hc⟩ := hc
  · exact hb c hc
  · exact ha c hc

theorem textLines_append {a b : String} (ha : EndsLine a) :
    textLines (a ++ b) = textLines a ++ textLines b := by
  have hlines : linesFrom [] (a.toList ++ b.toList) =
      linesFrom [] a.toList ++ linesFrom [] b.toList := by
    obtain hnil | ⟨cs, c, hcs⟩ := a.toList.eq_nil_or_concat
    · simp [hnil, linesFrom]
    · obtain rfl := ha c (by simp [hcs])
      rw [hcs, List.concat_eq_append, List.append_assoc]
      exact linesFrom_append [] cs b.toList
  rw [textLines, String.toList_append, hlines, List.map_append]
  rfl

namespace CodeBuffer

/-! ### Blocks of declarations -/

/-- The buffer that holds the given lines. -/
def ofLines (lines : List String) : CodeBuffer :=
  lines.foldl line {}

theorem line_ofLines (lines : List String) (text : String) :
    (ofLines lines).line text = ofLines (lines ++ [text]) := by
  rw [ofLines, ofLines, List.foldl_append]
  rfl

/-! ### Lines that are added -/

/-- The indentation of the lines of a level. -/
def indentation (level : Nat) : String :=
  String.ofList (List.replicate level '\t')

@[simp]
theorem indentation_zero : indentation 0 = "" :=
  rfl

@[simp]
theorem indentation_one : indentation 1 = "\t" :=
  rfl

theorem indentation_add (m n : Nat) : indentation (m + n) = indentation m ++ indentation n := by
  rw [indentation, ← List.replicate_append_replicate, String.ofList_append]
  rfl

theorem isLine_indentation (level : Nat) : IsLine (indentation level) := by
  intro c hc
  rw [indentation, String.toList_ofList] at hc
  rw [List.eq_of_mem_replicate hc]
  decide

/-- The buffer has come to hold more lines at its level. -/
structure Adds (b c : CodeBuffer) (lines : List String) : Prop where
  level : c.level = b.level
  endsLine : EndsLine c.text
  textLines_eq : textLines c.text = textLines b.text ++ lines

variable {b c d : CodeBuffer} {ls ms : List String} {s text : String}

theorem text_line (b : CodeBuffer) (s : String) :
    (b.line s).text = b.text ++ (indentation b.level ++ s ++ "\n") := by
  simp [line, indentation, String.append_assoc]

theorem textLines_line (hb : EndsLine b.text) (hs : IsLine s) :
    textLines (b.line s).text = textLines b.text ++ [indentation b.level ++ s] := by
  have htabs := isLine_indentation b.level
  have hline := linesFrom_line [] (indentation b.level ++ s).toList [] (htabs.append hs) (by simp)
  have hone : textLines (indentation b.level ++ s ++ "\n") = [indentation b.level ++ s] := by
    rw [textLines, String.toList_append]
    exact (congrArg (List.map String.ofList) hline).trans (by simp [linesFrom])
  rw [text_line, textLines_append hb, hone]

@[simp]
theorem level_line (b : CodeBuffer) (s : String) : (b.line s).level = b.level :=
  rfl

@[simp]
theorem level_indent (b : CodeBuffer) : b.indent.level = b.level + 1 :=
  rfl

theorem endsLine_line (b : CodeBuffer) (s : String) : EndsLine (b.line s).text := by
  simp [EndsLine, line]

theorem isEmpty_line (b : CodeBuffer) (s : String) : (b.line s).isEmpty = false := by
  simp [isEmpty, line]

/-- A spliced text is appended as it comes out at the level of the buffer. -/
theorem text_splice (b : CodeBuffer) (text : String) :
    (b.splice text).text = b.text ++ (({ level := b.level } : CodeBuffer).splice text).text := by
  suffices h : ∀ (lines : List String) (c d : CodeBuffer), c.level = d.level →
      c.text = b.text ++ d.text →
      (lines.foldl spliceLine c).text = b.text ++ (lines.foldl spliceLine d).text by
    exact h _ b { level := b.level } rfl (by simp)
  intro lines
  induction lines with
  | nil => exact fun _ _ _ h ↦ h
  | cons l ls ih =>
    intro c d hlevel htext
    refine ih _ _ ?_ ?_
    · unfold spliceLine
      split <;> exact hlevel
    · unfold spliceLine
      split <;> simp [line, hlevel, htext, String.append_assoc]

theorem isEmpty_splice (b : CodeBuffer) (htext : text ≠ "") : (b.splice text).isEmpty = false := by
  have hlines : textLines text ≠ [] := by
    rw [textLines, ne_eq, List.map_eq_nil_iff]
    exact linesFrom_ne_nil (.inr (by simpa using htext))
  obtain ⟨init, last, hinit⟩ := (textLines text).eq_nil_or_concat.resolve_left hlines
  rw [splice, hinit, List.concat_eq_append, List.foldl_append, List.foldl_cons, List.foldl_nil,
    spliceLine]
  split
  · simp [isEmpty]
  · exact isEmpty_line _ _

theorem closeBlocks {α : Type} (headers : List α) (c : CodeBuffer) :
    headers.foldl (fun c _ ↦ c.closeBlock) c.closeBlock =
      (headers.foldl (fun c _ ↦ c.closeBlock) c).closeBlock := by
  induction headers generalizing c with
  | nil => rfl
  | cons header headers ih => exact ih c.closeBlock

theorem level_splice (b : CodeBuffer) (text : String) : (b.splice text).level = b.level := by
  suffices h : ∀ (lines : List String) (c : CodeBuffer),
      (lines.foldl spliceLine c).level = c.level from h _ b
  intro lines
  induction lines with
  | nil => exact fun _ ↦ rfl
  | cons l ls ih =>
    intro c
    rw [List.foldl_cons, ih, spliceLine]
    split <;> rfl

theorem endsLine_splice (hb : EndsLine b.text) (text : String) : EndsLine (b.splice text).text := by
  unfold splice
  induction textLines text generalizing b with
  | nil => exact hb
  | cons l ls ih =>
    refine ih ?_
    unfold spliceLine
    split
    · exact hb.append (by simp [EndsLine])
    · exact b.endsLine_line l

/-- The lines of a text that is spliced at a level. -/
def splicedLines (level : Nat) (text : String) : List String :=
  textLines (({ level } : CodeBuffer).splice text).text

/-- Splicing a text moves its lines to the level and changes none of its tokens. -/
theorem tokens_splicedLines (level : Nat) (text : String) :
    (splicedLines level text).flatMap tokens = tokens text := by
  have hempty : EndsApart ({ level } : CodeBuffer).text := by simp [EndsApart]
  rw [splicedLines, tokens_textLines, tokens_splice hempty]
  rfl

namespace Adds

theorem refl (hb : EndsLine b.text) : b.Adds b [] :=
  ⟨rfl, hb, by simp⟩

theorem trans (h : b.Adds c ls) (h' : c.Adds d ms) : b.Adds d (ls ++ ms) :=
  ⟨h'.level.trans h.level, h'.endsLine, by
    rw [h'.textLines_eq, h.textLines_eq, List.append_assoc]⟩

theorem line (h : b.Adds c ls) (hs : IsLine s) :
    b.Adds (c.line s) (ls ++ [indentation b.level ++ s]) := by
  refine h.trans ⟨rfl, c.endsLine_line s, ?_⟩
  rw [textLines_line h.endsLine hs, h.level]

theorem lines (h : b.Adds c ls) (hs : ∀ s ∈ ms, IsLine s) :
    b.Adds (ms.foldl CodeBuffer.line c) (ls ++ ms.map (indentation b.level ++ ·)) := by
  induction ms generalizing c ls with
  | nil => simpa using h
  | cons s ms ih =>
    have hrest := ih (h.line (hs s List.mem_cons_self)) fun m hm ↦ hs m (List.mem_cons_of_mem s hm)
    simpa [List.append_assoc] using hrest

theorem indent (h : b.Adds c ls) : c.indent.Adds c.indent [] :=
  .refl h.endsLine

/-- What is written at the next level. -/
theorem dedent (h : b.Adds c ls) (h' : c.indent.Adds d ms) : b.Adds d.dedent (ls ++ ms) := by
  refine ⟨?_, h'.endsLine, ?_⟩
  · have hlevel : d.level = b.level + 1 := by rw [h'.level, CodeBuffer.indent, h.level]
    simp [CodeBuffer.dedent, hlevel]
  · rw [← List.append_assoc, ← h.textLines_eq]
    exact h'.textLines_eq

theorem splice (h : b.Adds c ls) (text : String) :
    b.Adds (c.splice text) (ls ++ splicedLines b.level text) := by
  refine h.trans ⟨c.level_splice text, endsLine_splice h.endsLine text, ?_⟩
  rw [text_splice, textLines_append h.endsLine, h.level]
  rfl

end Adds

/-- The lines that were written to a block are the lines of its text. -/
theorem textLines_ofLines {lines : List String} (h : ∀ l ∈ lines, IsLine l) :
    textLines (ofLines lines).text = lines := by
  rw [ofLines, ((Adds.refl endsLine_empty).lines h).textLines_eq]
  simp

/-- A text of lines that are not empty keeps them when it is spliced. -/
theorem splicedLines_eq {level : Nat} (h : ∀ l ∈ textLines text, IsLine l ∧ l ≠ "") :
    splicedLines level text = (textLines text).map (indentation level ++ ·) := by
  have hfold (b : CodeBuffer) :
      (textLines text).foldl spliceLine b = (textLines text).foldl CodeBuffer.line b := by
    refine List.foldl_ext _ _ _ fun b l hl ↦ ?_
    simp [spliceLine, (h l hl).2]
  rw [splicedLines, CodeBuffer.splice, hfold,
    ((Adds.refl endsLine_empty).lines fun l hl ↦ (h l hl).1).textLines_eq]
  simp

end CodeBuffer

end ShaderGraph
