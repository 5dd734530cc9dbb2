import ShaderGraph.Proofs.Members.Sources
import ShaderGraph.Proofs.Scope.Loops

/-!
# Layout of bodies

The lines of a body are statements, blocks, branches and loops, and what stands in a block is indented by
one tab. An attribute is the line in front of the `if` of a branch or the `for` of a loop, and an `else`
is the line behind the block of an `if`. Texts that are spliced keep their layout, so bodies are put
together from the bodies of their branches and loops.
-/

namespace ShaderGraph

open CodeBuffer

/-- The lines of a block. -/
def blockLines (inner : List String) : List String :=
  "\x7b" :: (inner.map ("\t" ++ ·) ++ ["\x7d"])

/-- A line that is a statement. -/
def IsStatement (line : String) : Prop :=
  IsLine line ∧ ∃ body : String, line = body ++ ";"

/-- The lines of a body. -/
inductive LaidOut (d : Dialect) : List String → Prop
  | nil : LaidOut d []
  | statement {ls : List String} {line : String} (h : LaidOut d ls) (hline : IsStatement line) :
    LaidOut d (ls ++ [line])
  | block {ls inner : List String} (h : LaidOut d ls) (hinner : LaidOut d inner) :
    LaidOut d (ls ++ blockLines inner)
  | branches {ls : List String} {attribute? : Option String} {arms : List (String × List String)}
    (h : LaidOut d ls)
    (hattribute : ∀ line ∈ attribute?, d.flattenAttribute? = some line ∨
      d.branchAttribute? = some line)
    (hheads : AreHeads (arms.map Prod.fst)) (hlines : ∀ head ∈ arms.map Prod.fst, IsLine head)
    (harms : ∀ arm ∈ arms, LaidOut d arm.2) :
    LaidOut d (ls ++ attribute?.toList ++ arms.flatMap fun arm ↦ arm.1 :: blockLines arm.2)
  | loop {ls inner : List String} {attribute? : Option String} {head : String} (h : LaidOut d ls)
    (hattribute : ∀ line ∈ attribute?, d.unrollAttribute? = some line)
    (hhead : Opens "for" head) (hline : IsLine head) (hinner : LaidOut d inner) :
    LaidOut d (ls ++ attribute?.toList ++ head :: blockLines inner)

/-! ## Lines -/

theorem IsStatement.isFullLine {line : String} (h : IsStatement line) : IsFullLine line := by
  refine ⟨h.1, ?_⟩
  obtain ⟨-, body, rfl⟩ := h
  simp

theorem IsStatement.of_isLine {text : String} (h : IsLine text) : IsStatement (text ++ ";") :=
  ⟨.append h (by decide), text, rfl⟩

theorem Opens.ne_empty {keyword line : String} (h : Opens keyword line) : line ≠ "" := by
  obtain ⟨text, rfl⟩ := h
  simp

theorem AreHeads.ne_empty {heads : List String} (h : AreHeads heads) : ∀ head ∈ heads, head ≠ "" := by
  obtain ⟨first, rest, rfl, hfirst, hrest⟩ := h
  intro head hhead
  simp only [List.mem_cons, List.mem_append, List.not_mem_nil, or_false] at hhead
  obtain rfl | hhead | rfl := hhead
  · exact hfirst.ne_empty
  · exact (hrest head hhead).ne_empty
  · decide

theorem isFullLine_blockLines {inner : List String} (h : ∀ l ∈ inner, IsFullLine l) :
    ∀ l ∈ blockLines inner, IsFullLine l := by
  intro l hl
  simp only [blockLines, List.mem_cons, List.mem_append, List.mem_map, List.not_mem_nil,
    or_false] at hl
  obtain rfl | ⟨inside, hinside, rfl⟩ | rfl := hl
  · exact ⟨by decide, by decide⟩
  · exact ⟨.append (by decide) (h inside hinside).1, by simp⟩
  · exact ⟨by decide, by decide⟩

theorem Backend.isFullLine_attribute {b : Backend} {line : String}
    (h : b.dialect.flattenAttribute? = some line ∨ b.dialect.branchAttribute? = some line ∨
      b.dialect.unrollAttribute? = some line) : IsFullLine line := by
  cases b <;> obtain h | h | h := h <;> cases h <;> exact ⟨by decide, by decide⟩

theorem LaidOut.isFullLine {b : Backend} {ls : List String} (h : LaidOut b.dialect ls) :
    ∀ l ∈ ls, IsFullLine l := by
  induction h with
  | nil => simp
  | statement _ hline ih =>
    exact List.forall_mem_append.mpr ⟨ih, List.forall_mem_singleton.mpr hline.isFullLine⟩
  | block _ _ ih ihinner =>
    exact List.forall_mem_append.mpr ⟨ih, isFullLine_blockLines ihinner⟩
  | branches _ hattribute hheads hlines _ ih iharms =>
    refine List.forall_mem_append.mpr ⟨List.forall_mem_append.mpr ⟨ih, fun l hl ↦ ?_⟩, fun l hl ↦ ?_⟩
    · exact Backend.isFullLine_attribute
        ((hattribute l (Option.mem_toList.mp hl)).imp_right .inl)
    · obtain ⟨arm, harm, hl⟩ := List.mem_flatMap.mp hl
      have hhead := List.mem_map_of_mem (f := Prod.fst) harm
      rcases List.mem_cons.mp hl with rfl | hl
      · exact ⟨hlines _ hhead, hheads.ne_empty _ hhead⟩
      · exact isFullLine_blockLines (iharms arm harm) l hl
  | loop _ hattribute hhead hline _ ih ihinner =>
    refine List.forall_mem_append.mpr ⟨List.forall_mem_append.mpr ⟨ih, fun l hl ↦ ?_⟩,
      List.forall_mem_cons.mpr ⟨⟨hline, hhead.ne_empty⟩, isFullLine_blockLines ihinner⟩⟩
    exact Backend.isFullLine_attribute (.inr (.inr (hattribute l (Option.mem_toList.mp hl))))

/-! ## Lines that are written -/

namespace CodeBuffer

variable {b c e : CodeBuffer} {ls ms inner : List String}

theorem indentation_succ (level : Nat) : indentation (level + 1) = indentation level ++ "\t" :=
  indentation_add level 1

/-- What is written inside of a block comes out as the lines of the block. -/
theorem Adds.block (h : b.Adds c ls)
    (hinner : c.openBlock.Adds e (inner.map (indentation (b.level + 1) ++ ·))) :
    b.Adds e.closeBlock (ls ++ (blockLines inner).map (indentation b.level ++ ·)) := by
  have hopen := h.line (s := "\x7b") (by decide)
  have hclose := (hopen.dedent hinner).line (s := "\x7d") (by decide)
  change b.Adds (e.dedent.line "\x7d") _
  simpa [blockLines, indentation_succ, String.append_assoc, Function.comp_def] using hclose

end CodeBuffer

/-- The lines in the block of an arm. -/
def Arm.inner (output : String) (arm : Arm) : List String :=
  textLines arm.branch.text ++ [s!"{output} = {arm.value};"]

def Arm.lines (output : String) (arm : Arm) : List String :=
  arm.head ++ blockLines (arm.inner output)

/-- The lines of loops around a body, the outermost one first. -/
def loopLines (heads inner : List String) : List String :=
  heads.foldr (fun head ls ↦ head :: blockLines ls) inner

section Writing

variable {b c : CodeBuffer} {ls inner heads : List String} {output : String}

/-- An arm that is written in whole lines. -/
structure Arm.IsWritten (output : String) (arm : Arm) : Prop where
  head : ∀ line ∈ arm.head, IsLine line
  text : ∀ line ∈ textLines arm.branch.text, IsFullLine line
  value : IsLine s!"{output} = {arm.value};"

theorem Arm.IsWritten.adds {arm : Arm} (harm : arm.IsWritten output) (h : b.Adds c ls) :
    b.Adds (arm.write output c) (ls ++ (arm.lines output).map (indentation b.level ++ ·)) := by
  have hhead := h.lines harm.head
  have hstart : (arm.head.foldl CodeBuffer.line c).openBlock.Adds _ [] :=
    .refl (endsLine_line _ _)
  have hlevel : (arm.head.foldl CodeBuffer.line c).openBlock.level = b.level + 1 :=
    congrArg (· + 1) hhead.level
  have hinner := (hstart.splice arm.branch.text).line harm.value
  have hlines : (arm.inner output).map (indentation (b.level + 1) ++ ·) =
      (textLines arm.branch.text).map (indentation (b.level + 1) ++ ·) ++
        [indentation (b.level + 1) ++ s!"{output} = {arm.value};"] := by simp [Arm.inner]
  rw [hlevel, splicedLines_eq harm.text, List.nil_append, ← hlines] at hinner
  have hblock := hhead.block hinner
  rw [List.append_assoc, ← List.map_append] at hblock
  exact hblock

theorem adds_arms {arms : List Arm} (harms : ∀ arm ∈ arms, arm.IsWritten output)
    (h : b.Adds c ls) :
    b.Adds (arms.foldl (Arm.write output) c)
      (ls ++ (arms.flatMap (Arm.lines output)).map (indentation b.level ++ ·)) := by
  induction arms generalizing c ls with
  | nil => simpa using h
  | cons arm arms ih =>
    have hrest := ih (fun a ha ↦ harms a (List.mem_cons_of_mem arm ha))
      ((harms arm List.mem_cons_self).adds h)
    simpa using hrest

theorem adds_loops {f : CodeBuffer → CodeBuffer}
    (hf : ∀ c : CodeBuffer, EndsLine c.text → c.Adds (f c) (inner.map (indentation c.level ++ ·)))
    (hheads : ∀ head ∈ heads, IsLine head) (hc : EndsLine c.text) :
    c.Adds (heads.foldl (fun b _ ↦ b.closeBlock)
        (f (heads.foldl (fun b head ↦ (b.line head).openBlock) c)))
      ((loopLines heads inner).map (indentation c.level ++ ·)) := by
  induction heads generalizing c with
  | nil => exact hf c hc
  | cons head heads ih =>
    have hhead := (Adds.refl hc).line (hheads head List.mem_cons_self)
    have hopened : EndsLine (c.line head).openBlock.text := endsLine_line _ _
    have hinner := ih (fun h hh ↦ hheads h (List.mem_cons_of_mem head hh)) hopened
    rw [List.foldl_cons, List.foldl_cons, closeBlocks]
    have hblock := hhead.block hinner
    simpa [loopLines] using hblock

end Writing

/-! ## Buffers -/

namespace CodeBuffer

/-- The buffer holds a body. -/
structure IsBody (d : Dialect) (b : CodeBuffer) : Prop where
  level : b.level = 0
  endsLine : EndsLine b.text
  laidOut : LaidOut d (textLines b.text)

namespace IsBody

variable {d : Dialect} {b c : CodeBuffer} {ms : List String} {s : String}

theorem empty : ({} : CodeBuffer).IsBody d :=
  ⟨rfl, endsLine_empty, .nil⟩

theorem of_adds (h : b.IsBody d) (hadds : b.Adds c ms) (hms : LaidOut d (textLines b.text ++ ms)) :
    c.IsBody d :=
  ⟨hadds.level.trans h.level, hadds.endsLine, hadds.textLines_eq ▸ hms⟩

theorem line (h : b.IsBody d) (hs : IsStatement s) : (b.line s).IsBody d := by
  have hadds := (Adds.refl h.endsLine).line hs.1
  rw [h.level, indentation_zero, String.empty_append] at hadds
  exact h.of_adds hadds (h.laidOut.statement hs)

end IsBody

end CodeBuffer

/-! ### Branches -/

/-- The blocks of arms come out behind their heads. -/
theorem flatMap_lines {arms : List Arm} {heads : List String} (output : String)
    (hheads : arms.map Arm.head = heads.map ([·])) :
    arms.flatMap (Arm.lines output) =
      (heads.zip (arms.map (Arm.inner output))).flatMap fun arm ↦ arm.1 :: blockLines arm.2 := by
  induction arms generalizing heads with
  | nil => simp
  | cons arm arms ih =>
    cases heads with
    | nil => simp at hheads
    | cons head heads =>
      rw [List.map_cons, List.map_cons, List.cons.injEq] at hheads
      simp [Arm.lines, hheads.1, ih hheads.2]

section Constructs

variable {t : Backend} {b : CodeBuffer} {attribute? : Option String}

/-- Arms that are chained by an `if` and its `else`, or the only block of a construct without conditions,
in front of which there is no attribute. -/
def Arm.AreChained (attribute? : Option String) (arms : List Arm) : Prop :=
  (∃ heads : List String, arms.map Arm.head = heads.map ([·]) ∧ AreHeads heads) ∨
    arms.map Arm.head = [[]] ∧ attribute? = none

theorem CodeBuffer.IsBody.branches {declaration output : String} {arms : List Arm}
    (h : b.IsBody t.dialect) (hdeclaration : IsStatement declaration)
    (hattribute : ∀ line ∈ attribute?, t.dialect.flattenAttribute? = some line ∨
      t.dialect.branchAttribute? = some line)
    (hchain : Arm.AreChained attribute? arms) (hwritten : ∀ arm ∈ arms, arm.IsWritten output)
    (hinner : ∀ arm ∈ arms, LaidOut t.dialect (arm.inner output)) :
    (arms.foldl (Arm.write output)
      (attribute?.toList.foldl CodeBuffer.line (b.line declaration))).IsBody t.dialect := by
  have hstart := h.line hdeclaration
  have hlines : ∀ line ∈ attribute?.toList, IsLine line := fun line hline ↦
    (Backend.isFullLine_attribute
      ((hattribute line (Option.mem_toList.mp hline)).imp_right .inl)).1
  have hadds := adds_arms hwritten ((Adds.refl hstart.endsLine).lines hlines)
  simp only [hstart.level, indentation_zero, String.empty_append, List.map_id_fun', id_eq,
    List.nil_append] at hadds
  refine hstart.of_adds hadds ?_
  obtain ⟨heads, hheads, hchained⟩ | ⟨hbare, rfl⟩ := hchain
  · have hfst : (heads.zip (arms.map (Arm.inner output))).map Prod.fst = heads := by
      have hlength := congrArg List.length hheads
      rw [List.length_map, List.length_map] at hlength
      exact List.map_fst_zip (by rw [List.length_map, hlength])
    rw [flatMap_lines output hheads, ← List.append_assoc]
    refine hstart.laidOut.branches hattribute (hfst.symm ▸ hchained) ?_ fun arm harm ↦ ?_
    · rw [hfst]
      intro head hhead
      obtain ⟨arm, harm, hsome⟩ := List.mem_map.mp (hheads ▸ List.mem_map_of_mem hhead)
      exact (hwritten arm harm).head head (by simp [hsome])
    · obtain ⟨arm', harm', hsome⟩ := List.mem_map.mp (List.of_mem_zip harm).2
      exact hsome ▸ hinner arm' harm'
  · obtain ⟨arm, rfl, hnone⟩ := List.map_eq_singleton_iff.mp hbare
    have hblock := hstart.laidOut.block (hinner arm List.mem_cons_self)
    simpa [Arm.lines, hnone] using hblock

/-! ### Loops -/

/-- Loops that are nested in one another are laid out if their body is. -/
theorem LaidOut.loopLines {d : Dialect} {heads inner : List String} (hinner : LaidOut d inner)
    (hheads : ∀ head ∈ heads, Opens "for" head ∧ IsLine head) :
    LaidOut d (loopLines heads inner) := by
  induction heads with
  | nil => exact hinner
  | cons head heads ih =>
    obtain ⟨hopens, hline⟩ := hheads head List.mem_cons_self
    have hinside := ih fun h hh ↦ hheads h (List.mem_cons_of_mem head hh)
    have hloop : LaidOut d ([] ++ (none : Option String).toList ++ head :: blockLines _) :=
      .loop .nil (by simp) hopens hline hinside
    exact hloop

/-- The line that leaves a loop. -/
def breakLine (condition : String) : String :=
  s!"if ({condition} == 0.0) break;"

/-- The lines of the body of a loop. -/
def loopInner (body : String) (condition? : Option String) (assignment : String) : List String :=
  textLines body ++ condition?.toList.map breakLine ++ [assignment]

theorem isStatement_breakLine {condition : String} (h : IsLine condition) :
    IsStatement (breakLine condition) :=
  ⟨.append (.append (by decide) h) (by decide), s!"if ({condition} == 0.0) break", by
    simp [breakLine, String.append_assoc]⟩

theorem LaidOut.loopInner {d : Dialect} {body assignment : String} {condition? : Option String}
    (hbody : LaidOut d (textLines body)) (hcondition : ∀ c ∈ condition?, IsLine c)
    (hassignment : IsStatement assignment) : LaidOut d (loopInner body condition? assignment) := by
  cases condition? with
  | none => simpa [ShaderGraph.loopInner] using hbody.statement hassignment
  | some condition =>
    have hbreak := hbody.statement (isStatement_breakLine (hcondition condition rfl))
    simpa [ShaderGraph.loopInner] using hbreak.statement hassignment

theorem adds_writeLoop {loop : Emitter.Loop} {names : List String}
    {scalar body assignment : String} {condition? : Option String}
    (hheads : ∀ head ∈ (loop.counters.zip names).map (loopHeader scalar), IsLine head)
    (hbody : LaidOut t.dialect (textLines body)) (hcondition : ∀ c ∈ condition?, IsLine c)
    (hassignment : IsStatement assignment) (hb : EndsLine b.text) :
    b.Adds (Emitter.writeLoop loop names scalar body condition? assignment b)
      ((loopLines ((loop.counters.zip names).map (loopHeader scalar))
        (loopInner body condition? assignment)).map (indentation b.level ++ ·)) := by
  have hspliced (c : CodeBuffer) (hc : EndsLine c.text) :
      c.Adds (c.splice body) ((textLines body).map (indentation c.level ++ ·)) := by
    simpa [splicedLines_eq hbody.isFullLine] using (Adds.refl hc).splice body
  cases condition? with
  | none =>
    refine adds_loops (f := fun b ↦ (b.splice body).line assignment) (fun c hc ↦ ?_) hheads hb
    simpa [loopInner] using (hspliced c hc).line hassignment.1
  | some condition =>
    refine adds_loops (f := fun b ↦ ((b.splice body).line (breakLine condition)).line assignment)
      (fun c hc ↦ ?_) hheads hb
    have hbreak := (isStatement_breakLine (hcondition condition rfl)).1
    simpa [loopInner] using ((hspliced c hc).line hbreak).line hassignment.1

theorem CodeBuffer.IsBody.loop {loop : Emitter.Loop} {names : List String}
    {declaration scalar body assignment : String} {condition? : Option String}
    (h : b.IsBody t.dialect) (hdeclaration : IsStatement declaration)
    (hattribute : ∀ line ∈ attribute?, t.dialect.unrollAttribute? = some line)
    (hcounters : loop.counters.zip names ≠ [])
    (hheads : ∀ p ∈ loop.counters.zip names, IsLine (loopHeader scalar p))
    (hbody : LaidOut t.dialect (textLines body)) (hcondition : ∀ c ∈ condition?, IsLine c)
    (hassignment : IsStatement assignment) :
    (Emitter.writeLoop loop names scalar body condition? assignment
      (attribute?.toList.foldl CodeBuffer.line (b.line declaration))).IsBody t.dialect := by
  have hstart := h.line hdeclaration
  have hattributes : ∀ line ∈ attribute?.toList, IsLine line := fun line hline ↦
    (Backend.isFullLine_attribute
      (.inr (.inr (hattribute line (Option.mem_toList.mp hline))))).1
  have hbefore := (Adds.refl hstart.endsLine).lines hattributes
  have hlines : ∀ head ∈ (loop.counters.zip names).map (loopHeader scalar), IsLine head :=
    List.forall_mem_map.mpr hheads
  have hadds := hbefore.trans
    (adds_writeLoop hlines hbody hcondition hassignment hbefore.endsLine)
  simp only [hbefore.level, hstart.level, indentation_zero, String.empty_append, List.map_id_fun',
    id_eq, List.nil_append] at hadds
  refine hstart.of_adds hadds ?_
  -- The attribute belongs to the outermost of the loops.
  obtain ⟨p, ps, hcons⟩ := List.exists_cons_of_ne_nil hcounters
  have hopens : ∀ p : Emitter.Counter × String, Opens "for" (loopHeader scalar p) := fun p ↦
    ⟨s!"{scalar} {p.1.header p.2}", by simp [loopHeader, String.append_assoc]⟩
  have hinner : LaidOut t.dialect (loopLines (ps.map (loopHeader scalar))
      (loopInner body condition? assignment)) := by
    refine (hbody.loopInner hcondition hassignment).loopLines fun head hhead ↦ ?_
    obtain ⟨q, hq, rfl⟩ := List.mem_map.mp hhead
    exact ⟨hopens q, hheads q (hcons ▸ List.mem_cons_of_mem p hq)⟩
  rw [hcons, List.map_cons, ← List.append_assoc]
  exact hstart.laidOut.loop hattribute (hopens p) (hheads p (hcons ▸ List.mem_cons_self)) hinner

end Constructs

end ShaderGraph
