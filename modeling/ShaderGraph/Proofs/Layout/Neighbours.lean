import ShaderGraph.Proofs.Layout.Grammar

/-!
# Neighbouring lines

In a laid-out body every attribute stands directly in front of the `if` or the `for` that it is attached
to, and every `else` directly behind the brace that closes the block of an `if`. Whether one line may
follow another can be told from the two lines alone, so that it is enough to look at where the parts of
a body meet.
-/

namespace ShaderGraph

/-- A line without the tabs in front of it. -/
def unindented (line : String) : String :=
  String.ofList (line.toList.dropWhile (· = '\t'))

/-- A line that goes on behind the block of an `if`. -/
def IsElse (line : String) : Prop :=
  line = "else" ∨ Opens "else if" line

/-- A line that stands in front of a branch. -/
def Dialect.IsBranchAttribute (d : Dialect) (line : String) : Prop :=
  d.flattenAttribute? = some line ∨ d.branchAttribute? = some line

/-- A line that stands in front of a loop. -/
def Dialect.IsLoopAttribute (d : Dialect) (line : String) : Prop :=
  d.unrollAttribute? = some line

/-- The line stands in front of no statement. -/
def Dialect.IsDetached (d : Dialect) (line : String) : Prop :=
  ¬ d.IsBranchAttribute (unindented line) ∧ ¬ d.IsLoopAttribute (unindented line)

/-- The second line may directly follow the first one. -/
structure Dialect.Precedes (d : Dialect) (line next : String) : Prop where
  branch : d.IsBranchAttribute (unindented line) → Opens "if" (unindented next)
  loop : d.IsLoopAttribute (unindented line) → Opens "for" (unindented next)
  chained : IsElse (unindented next) → unindented line = "\x7d"

/-- Lines in which no attribute lacks its statement and no `else` the block in front of it. -/
structure Dialect.AreAttached (d : Dialect) (ls : List String) : Prop where
  chain : ls.IsChain d.Precedes
  first : ∀ line ∈ ls.head?, ¬ IsElse (unindented line)
  last : ∀ line ∈ ls.getLast?, d.IsDetached line

/-- A line that is neither an attribute nor an `else` can be told by its end. -/
def EndsPlainly (line : String) : Prop :=
  ∃ c ∈ (unindented line).toList.getLast?, c = ';' ∨ c = '\x7b' ∨ c = '\x7d'

theorem unindented_tab (line : String) : unindented ("\t" ++ line) = unindented line := by
  rw [unindented, String.toList_append, show "\t".toList = ['\t'] by decide, List.singleton_append,
    List.dropWhile_cons_of_pos (by decide), unindented]

theorem unindented_append {keyword : String} {c : Char} {cs : List Char}
    (hkeyword : keyword.toList = c :: cs) (hc : c ≠ '\t') (text : String) :
    unindented (keyword ++ text) = keyword ++ text := by
  rw [unindented, String.toList_append, hkeyword, List.cons_append, List.dropWhile_cons_of_neg
    (by simpa using hc), ← List.cons_append, ← hkeyword, ← String.toList_append,
    String.ofList_toList]

theorem Opens.unindented_eq {keyword line : String} (h : Opens keyword line) {c : Char}
    {cs : List Char} (hkeyword : keyword.toList = c :: cs) (hc : c ≠ '\t') :
    unindented line = line := by
  obtain ⟨text, rfl⟩ := h
  rw [String.append_assoc, String.append_assoc]
  exact unindented_append hkeyword hc _

theorem IsStatement.endsPlainly {line : String} (h : IsStatement line) : EndsPlainly line := by
  obtain ⟨-, body, rfl⟩ := h
  refine ⟨';', ?_, .inl rfl⟩
  rw [unindented, String.toList_ofList, String.toList_append, List.dropWhile_append]
  split <;> simp

theorem endsPlainly_open : EndsPlainly "\x7b" :=
  ⟨'\x7b', by decide, .inr (.inl rfl)⟩

theorem endsPlainly_close : EndsPlainly "\x7d" :=
  ⟨'\x7d', by decide, .inr (.inr rfl)⟩

section Neighbours

variable {b : Backend} {line next head : String} {ls ms inner : List String}

theorem Opens.getLast?_eq {keyword : String} (h : Opens keyword line) :
    line.toList.getLast? = some ')' := by
  obtain ⟨text, rfl⟩ := h
  rw [String.toList_append, show ")".toList = [')'] by decide, List.getLast?_concat]

/-- Every line that goes on behind a block ends in a letter or a parenthesis. -/
theorem IsElse.getLast?_eq (h : IsElse line) :
    line.toList.getLast? = some 'e' ∨ line.toList.getLast? = some ')' := by
  obtain rfl | hopens := h
  · exact .inl (by decide)
  · exact .inr hopens.getLast?_eq

/-- Every attribute ends in a bracket. -/
theorem Backend.getLast?_attribute
    (h : b.dialect.IsBranchAttribute line ∨ b.dialect.IsLoopAttribute line) :
    line.toList.getLast? = some ']' := by
  rw [Dialect.IsBranchAttribute, Dialect.IsLoopAttribute] at h
  cases b <;> obtain (h | h) | h := h <;> cases h <;> decide

theorem isDetached_of_getLast? {c : Char} (h : (unindented line).toList.getLast? = some c)
    (hc : c ≠ ']') : b.dialect.IsDetached line := by
  constructor <;> intro hattribute
  · exact hc (Option.some.inj (h.symm.trans (Backend.getLast?_attribute (.inl hattribute))))
  · exact hc (Option.some.inj (h.symm.trans (Backend.getLast?_attribute (.inr hattribute))))

/-- The line has another keyword than `else`. -/
theorem Opens.not_isElse {keyword : String} (h : Opens keyword line)
    (hkeyword : keyword.toList.head? ≠ some 'e') (hne : keyword ≠ "") : ¬ IsElse line := by
  obtain ⟨text, rfl⟩ := h
  have hhead : (keyword ++ " (" ++ text ++ ")").toList.head? = keyword.toList.head? := by
    obtain ⟨c, cs, hlist⟩ := List.exists_cons_of_ne_nil
      (l := keyword.toList) (by simpa using hne)
    simp [hlist]
  rintro (helse | ⟨other, hother⟩)
  · rw [helse] at hhead
    exact hkeyword hhead.symm
  · rw [hother] at hhead
    exact hkeyword (by simpa using hhead.symm)

theorem isDetached_of_isElse (h : IsElse line) : b.dialect.IsDetached line := by
  have hself : unindented line = line := by
    obtain rfl | hopens := h
    · decide
    · exact hopens.unindented_eq rfl (by decide)
  obtain he | he := h.getLast?_eq <;> rw [← hself] at he
  · exact isDetached_of_getLast? he (by decide)
  · exact isDetached_of_getLast? he (by decide)

theorem EndsPlainly.not_isElse (h : EndsPlainly line) : ¬ IsElse (unindented line) := by
  obtain ⟨c, hc, hplain⟩ := h
  intro helse
  obtain he | he := helse.getLast?_eq <;> obtain rfl := Option.some.inj (he.symm.trans hc) <;>
    simp at hplain

theorem EndsPlainly.isDetached (h : EndsPlainly line) : b.dialect.IsDetached line := by
  obtain ⟨c, hc, hplain⟩ := h
  refine isDetached_of_getLast? hc ?_
  rintro rfl
  simp at hplain

/-- The head of a branch or of a loop is not indented and goes on from no block. -/
theorem Opens.isHead {keyword : String} (h : Opens keyword line)
    (hkeyword : keyword = "if" ∨ keyword = "for") : unindented line = line ∧ ¬ IsElse line := by
  obtain rfl | rfl := hkeyword
  · exact ⟨h.unindented_eq rfl (by decide), h.not_isElse (by decide) (by decide)⟩
  · exact ⟨h.unindented_eq rfl (by decide), h.not_isElse (by decide) (by decide)⟩

/-- The line is an attribute of what starts with the keyword. -/
def Dialect.IsAttributeOf (d : Dialect) (keyword line : String) : Prop :=
  (d.IsBranchAttribute line ∧ keyword = "if") ∨ (d.IsLoopAttribute line ∧ keyword = "for")

/-- An attribute may stand in front of the head that it belongs to. -/
theorem Backend.attribute_precedes {keyword : String} (h : b.dialect.IsAttributeOf keyword line)
    (hhead : Opens keyword head) : b.dialect.Precedes line head ∧ ¬ IsElse (unindented line) := by
  have hattribute := h.imp And.left And.left
  have hself : unindented line = line := by
    rw [Dialect.IsBranchAttribute, Dialect.IsLoopAttribute] at hattribute
    cases b <;> obtain (h | h) | h := hattribute <;> cases h <;> decide
  -- No attribute of a branch is one of a loop.
  have hapart : ¬ (b.dialect.IsBranchAttribute line ∧ b.dialect.IsLoopAttribute line) := by
    rw [Dialect.IsBranchAttribute, Dialect.IsLoopAttribute]
    rintro ⟨hbranch, hloop⟩
    cases b <;> cases hloop
    obtain h | h := hbranch <;> (revert h; decide)
  obtain ⟨hplain, helse⟩ := hhead.isHead (h.symm.imp And.right And.right).symm
  rw [hself]
  refine ⟨⟨?_, ?_, ?_⟩, fun helse ↦ ?_⟩
  · rw [hself, hplain]
    intro hbranch
    obtain ⟨-, rfl⟩ | ⟨hloop, -⟩ := h
    · exact hhead
    · exact absurd ⟨hbranch, hloop⟩ hapart
  · rw [hself, hplain]
    intro hloop
    obtain ⟨hbranch, -⟩ | ⟨-, rfl⟩ := h
    · exact absurd ⟨hbranch, hloop⟩ hapart
    · exact hhead
  · rw [hplain]
    exact fun h ↦ absurd h helse
  · obtain he | he := helse.getLast?_eq <;>
      exact absurd (Option.some.inj (he.symm.trans (getLast?_attribute hattribute))) (by decide)

namespace Dialect.AreAttached

variable {d : Dialect}

theorem nil : d.AreAttached [] :=
  ⟨.nil, by simp, by simp⟩

theorem precedes (hline : d.IsDetached line) (hnext : ¬ IsElse (unindented next)) :
    d.Precedes line next :=
  ⟨fun h ↦ absurd h hline.1, fun h ↦ absurd h hline.2, fun h ↦ absurd h hnext⟩

theorem append (h : d.AreAttached ls) (h' : d.AreAttached ms) : d.AreAttached (ls ++ ms) where
  chain := h.chain.append h'.chain fun x hx y hy ↦ precedes (h.last x hx) (h'.first y hy)
  first line hline := by
    rw [List.head?_append, Option.mem_def, Option.or_eq_some_iff] at hline
    obtain hline | ⟨-, hline⟩ := hline
    · exact h.first line hline
    · exact h'.first line hline
  last line hline := by
    rw [List.getLast?_append, Option.mem_def, Option.or_eq_some_iff] at hline
    obtain hline | ⟨-, hline⟩ := hline
    · exact h'.last line hline
    · exact h.last line hline

theorem single (h : EndsPlainly line) : b.dialect.AreAttached [line] := by
  refine ⟨List.isChain_singleton _, fun l hl ↦ ?_, fun l hl ↦ ?_⟩ <;>
    obtain rfl : line = l := Option.some.inj hl
  · exact h.not_isElse
  · exact h.isDetached

/-- Lines stay attached to one another if all of them are indented. -/
theorem indented (h : d.AreAttached ls) : d.AreAttached (ls.map ("\t" ++ ·)) where
  chain := by
    rw [List.isChain_map]
    refine h.chain.imp fun x y hxy ↦ ?_
    constructor <;> rw [unindented_tab, unindented_tab]
    · exact hxy.branch
    · exact hxy.loop
    · exact hxy.chained
  first line hline := by
    rw [List.head?_map] at hline
    obtain ⟨l, hl, rfl⟩ := Option.mem_map.mp hline
    rw [unindented_tab]
    exact h.first l hl
  last line hline := by
    rw [List.getLast?_map] at hline
    obtain ⟨l, hl, rfl⟩ := Option.mem_map.mp hline
    rw [Dialect.IsDetached, unindented_tab]
    exact h.last l hl

/-- A line that may precede the others can be put in front of them. -/
theorem cons (h : d.AreAttached ls) (hline : ¬ IsElse (unindented line))
    (hnext : ∀ y ∈ ls.head?, d.Precedes line y) (hne : ls ≠ []) : d.AreAttached (line :: ls) where
  chain := List.isChain_cons.mpr ⟨hnext, h.chain⟩
  first l hl := Option.some.inj hl ▸ hline
  last l hl := by
    rw [List.getLast?_cons_of_ne_nil hne] at hl
    exact h.last l hl

/-- What follows the closing brace of a block follows the block. -/
theorem block_append (h : b.dialect.AreAttached inner) (h' : b.dialect.AreAttached ("\x7d" :: ls)) :
    b.dialect.AreAttached (blockLines inner ++ ls) := by
  have hjoined := (single (b := b) endsPlainly_open).append (h.indented.append h')
  simpa [blockLines] using hjoined

/-- A block may stand behind its head. -/
theorem precedes_block (hhead : b.dialect.IsDetached head) :
    ∀ y ∈ (blockLines inner ++ ls).head?, b.dialect.Precedes head y := by
  intro y hy
  obtain rfl := Option.some.inj hy
  exact precedes hhead endsPlainly_open.not_isElse

/-- Anything but the statement of an attribute may stand behind a closing brace. -/
theorem close_precedes : b.dialect.Precedes "\x7d" next where
  branch h := absurd h endsPlainly_close.isDetached.1
  loop h := absurd h endsPlainly_close.isDetached.2
  chained _ := by decide

/-- Blocks with heads may follow the closing brace of another one. -/
theorem closed_arms {arms : List (String × List String)}
    (h : ∀ arm ∈ arms, b.dialect.AreAttached arm.2)
    (hheads : ∀ arm ∈ arms, b.dialect.IsDetached arm.1) :
    b.dialect.AreAttached ("\x7d" :: arms.flatMap fun arm ↦ arm.1 :: blockLines arm.2) := by
  induction arms with
  | nil => exact single endsPlainly_close
  | cons arm arms ih =>
    have hblock := (h arm List.mem_cons_self).block_append
      (ih (fun a ha ↦ h a (List.mem_cons_of_mem arm ha))
        fun a ha ↦ hheads a (List.mem_cons_of_mem arm ha))
    -- The head may be an `else`, so that the lines are attached from the brace in front of it on only.
    refine ⟨?_, fun l hl ↦ ?_, fun l hl ↦ ?_⟩
    · exact List.isChain_cons.mpr ⟨fun _ _ ↦ close_precedes, List.isChain_cons.mpr
        ⟨precedes_block (hheads arm List.mem_cons_self), hblock.chain⟩⟩
    · exact Option.some.inj hl ▸ endsPlainly_close.not_isElse
    · refine hblock.last l ?_
      rw [List.flatMap_cons, List.cons_append, List.getLast?_cons_of_ne_nil (List.cons_ne_nil _ _),
        List.getLast?_cons_of_ne_nil (by simp [blockLines])] at hl
      exact hl

/-- A block with a head and what is attached to the head. -/
theorem attached_block {attribute? : Option String} {keyword : String}
    (h : b.dialect.AreAttached inner) (h' : b.dialect.AreAttached ("\x7d" :: ls))
    (hkeyword : keyword = "if" ∨ keyword = "for") (hhead : Opens keyword head)
    (hattribute : ∀ line ∈ attribute?, b.dialect.IsAttributeOf keyword line) :
    b.dialect.AreAttached (attribute?.toList ++ head :: (blockLines inner ++ ls)) := by
  obtain ⟨hplain, helse⟩ := hhead.isHead hkeyword
  have hdetached : b.dialect.IsDetached head :=
    isDetached_of_getLast? (hplain.symm ▸ hhead.getLast?_eq) (by decide)
  have hblock := (h.block_append h').cons (hplain.symm ▸ helse) (precedes_block hdetached)
    (by simp [blockLines])
  cases attribute? with
  | none => exact hblock
  | some line =>
    obtain ⟨hprecedes, hline⟩ := Backend.attribute_precedes (hattribute line rfl) hhead
    refine hblock.cons hline (fun y hy ↦ ?_) (List.cons_ne_nil _ _)
    exact Option.some.inj hy ▸ hprecedes

end Dialect.AreAttached

open Dialect.AreAttached in
/-- In the lines of a body no attribute lacks its statement, and no `else` its `if`. -/
theorem LaidOut.areAttached (h : LaidOut b.dialect ls) : b.dialect.AreAttached ls := by
  induction h with
  | nil => exact .nil
  | statement _ hline ih => exact ih.append (single hline.endsPlainly)
  | block _ _ ih ihinner =>
    have hblock : b.dialect.AreAttached (blockLines _ ++ []) :=
      ihinner.block_append (single endsPlainly_close)
    rw [List.append_nil] at hblock
    exact ih.append hblock
  | branches _ hattribute hheads _ _ ih iharms =>
    obtain ⟨first, rest, hsome, hfirst, hrest⟩ := hheads
    obtain ⟨arm, others, rfl, rfl, hothers⟩ := List.map_eq_cons_iff.mp hsome
    have hclosed := closed_arms (b := b)
      (fun a ha ↦ iharms a (List.mem_cons_of_mem arm ha)) fun a ha ↦ by
        have hmem : a.1 ∈ rest ++ ["else"] := hothers ▸ List.mem_map_of_mem ha
        exact isDetached_of_isElse ((List.mem_append.mp hmem).elim (fun h ↦ .inr (hrest a.1 h))
          fun h ↦ .inl (List.mem_singleton.mp h))
    rw [List.append_assoc]
    exact ih.append (attached_block (iharms arm List.mem_cons_self) hclosed (.inl rfl) hfirst
      fun line hline ↦ .inl ⟨hattribute line hline, rfl⟩)
  | @loop _ inner attribute? head _ hattribute hhead _ _ ih ihinner =>
    have hloop : b.dialect.AreAttached (attribute?.toList ++ head :: (blockLines inner ++ [])) :=
      attached_block ihinner (single endsPlainly_close) (.inr rfl) hhead
        fun line hline ↦ .inr ⟨hattribute line hline, rfl⟩
    rw [List.append_nil] at hloop
    rw [List.append_assoc]
    exact ih.append hloop

end Neighbours

end ShaderGraph
