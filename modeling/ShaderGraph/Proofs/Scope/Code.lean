import ShaderGraph.Proofs.Scope.Names
import ShaderGraph.Proofs.Scope.Reading

/-!
# Scoped code

`Code` lists the forms of code that emitters write into bodies, with the temporaries that each form
declares and the interpolator slots that it writes. Code is read without failure wherever the
temporaries that it takes from outside are visible, and what it declares at its outermost level is
visible after it.
-/

namespace ShaderGraph

/-- How stage inputs and outputs are referred to: by name or as members. -/
def IsReferencePrefix (pre : List Token) (member : String) : Prop :=
  pre = [] ∨ pre = [.word member, .mark "."]

/-- `Code types Γ ts locals declared slots` says that the tokens `ts` are code in a place where the
temporaries `Γ` are visible. The code declares `locals` at its outermost level, the latest first, and
`declared` at all levels, the earliest first, and writes the interpolators `slots`. -/
inductive Code (types : List String) :
    List String → List Token → List String → List String → List Nat → Prop
  | nil {Γ : List String} : Code types Γ [] [] [] []
  | append {Γ locals declared locals' declared' : List String} {ts us : List Token}
    {slots slots' : List Nat} (h : Code types Γ ts locals declared slots)
    (h' : Code types (locals ++ Γ) us locals' declared' slots') :
    Code types Γ (ts ++ us) (locals' ++ locals) (declared ++ declared') (slots ++ slots')
  /-- A statement that assigns nothing. -/
  | statement {Γ : List String} {ts : List Token} (h : Token.Inert Γ ts)
    (hend : ∀ t ∈ ts.getLast?, t = .mark ")" ∨ t = .mark ";" ∨ t = .mark "]") :
    Code types Γ ts [] [] []
  | declare {Γ : List String} {type v : String} (htype : type ∈ types) (hv : isTemporary v) :
    Code types Γ [.word type, .word v, .mark ";"] [v] [v] []
  | define {Γ : List String} {pre : List Token} {type v : String} {e : List Token}
    (hpre : pre = [] ∨ pre = [.word "const"]) (htype : type ∈ types) (hv : isTemporary v)
    (he : Token.Inert Γ e) :
    Code types Γ (pre ++ Token.word type :: .word v :: .mark "=" :: (e ++ [Token.mark ";"])) [v] [v] []
  | assign {Γ : List String} {v : String} {op : List Token} {e : List Token} (hv : v ∈ Γ)
    (htemporary : isTemporary v) (hop : op = [.mark "="] ∨ op = [.mark "+", .mark "="])
    (he : Token.Inert Γ e) : Code types Γ (.word v :: (op ++ (e ++ [Token.mark ";"]))) [] [] []
  | output {Γ : List String} {pre : List Token} {w : String} {e : List Token}
    (hpre : IsReferencePrefix pre "o") (hw : isTemporary w = false)
    (hother : isInterpolatorName w = false) (he : Token.Inert Γ e) :
    Code types Γ (pre ++ Token.word w :: .mark "=" :: (e ++ [Token.mark ";"])) [] [] []
  | slot {Γ : List String} {pre : List Token} {slot : Nat} {e : List Token}
    (hpre : IsReferencePrefix pre "o") (he : Token.Inert Γ e) :
    Code types Γ (pre ++ Token.word (interpolatorName slot) :: .mark "=" :: (e ++ [Token.mark ";"])) [] []
      [slot]
  /-- A block behind its head. -/
  | block {Γ locals declared : List String} {head ts : List Token} (hhead : Token.Inert Γ head)
    (h : Code types Γ ts locals declared []) :
    Code types Γ (head ++ Token.mark "\x7b" :: (ts ++ [Token.mark "\x7d"])) [] declared []
  /-- A loop whose header declares its counter. -/
  | loop {Γ locals declared : List String} {type c : String} {test ts : List Token}
    (htype : type ∈ types) (hc : isTemporary c) (htest : Token.Inert (c :: Γ) test)
    (h : Code types (c :: Γ) ts locals declared []) :
    Code types Γ (.word "for" :: .mark "(" :: .word type :: .word c :: .mark "=" ::
      (test ++ Token.mark "\x7b" :: (ts ++ [Token.mark "\x7d"]))) [] (c :: declared) []

/-! ## Code is in scope -/

namespace Scope

variable {types : List String} {before : List Token} {b : List String} {bs : List (List String)}
  {declared : List String} {type v : String}

/-- The tokens end neither in a word nor in the head of a loop, so that a new statement may follow. -/
def Settled (ts : List Token) : Prop :=
  ∀ t ∈ ts.head?, t.isWord = false ∧ t ≠ .mark "("

theorem settled_cons_mark {m : String} {ts : List Token} (hm : m ≠ "(") :
    Settled (.mark m :: ts) := by
  intro t ht
  obtain rfl : .mark m = t := by simpa using ht
  exact ⟨rfl, by simpa using hm⟩

theorem Settled.ne_header {ts : List Token} (h : Settled ts) (rest : List Token) :
    ts ≠ .mark "(" :: rest := by
  rintro rfl
  exact (h (.mark "(") rfl).2 rfl

theorem Settled.separated {ts : List Token} (h : Settled ts) (t : Token) :
    ∀ u ∈ ts.head?, u.Separated t := by
  intro u hu
  simp [Token.Separated, (h u hu).1]

variable {σ : Scope} {w : String}

theorem read_word (hw : isTemporary w = false) :
    read types σ (.word w) = some (σ.pass (.word w)) := by
  simp [read, hw]

theorem read_declaration (hw : isTemporary w) (h : σ.followsType types) :
    read types σ (.word w) = some ((σ.declare w).pass (.word w)) := by
  simp [read, hw, h]

theorem read_openBlock : read types σ (.mark "\x7b") = some (σ.openBlock.pass (.mark "\x7b")) :=
  rfl

theorem read_closeBlock {c : List String} (h : σ.blocks = b :: c :: bs) :
    read types σ (.mark "\x7d") =
      some (({ σ with blocks := c :: bs } : Scope).pass (.mark "\x7d")) := by
  simp [read, closeBlock, h]

/-- A declaration outside of a loop header adds to the innermost block. -/
theorem readAll_declaration (htypes : ∀ type ∈ types, isTemporary type = false)
    (htype : type ∈ types) (hv : isTemporary v)
    (hbefore : ∀ rest, before ≠ .mark "(" :: .word "for" :: rest) :
    readAll types [.word type, .word v] ⟨before, [], b :: bs, declared⟩ =
      some ⟨.word v :: .word type :: before, [], (v :: b) :: bs, v :: declared⟩ := by
  have hheader : inHeader ⟨.word type :: before, [], b :: bs, v :: declared⟩ = false := by
    unfold inHeader
    split
    · next hshape => exact absurd (List.cons.inj hshape).2 (hbefore _)
    · rfl
  rw [readAll_cons, read_word (htypes type htype), Option.bind_some, readAll_cons,
    read_declaration hv (by simpa [followsType, pass] using htype), Option.bind_some]
  simp only [declare, pass, hheader]
  rfl

/-- A declaration in a loop header waits for the block of the loop. -/
theorem readAll_header (htypes : ∀ type ∈ types, isTemporary type = false) (htype : type ∈ types)
    (hv : isTemporary v) :
    readAll types [.word "for", .mark "(", .word type, .word v] ⟨before, [], b :: bs, declared⟩ =
      some ⟨.word v :: .word type :: .mark "(" :: .word "for" :: before, [v], b :: bs,
        v :: declared⟩ := by
  rw [readAll_cons, read_word (by decide), Option.bind_some, readAll_cons, read_reaches types (Γ := [])
    (by simp [Token.Reaches]) (List.nil_subset _) (by simp [pass, Token.Separated, Token.isTemporary]),
    Option.bind_some, readAll_cons, read_word (htypes type htype), Option.bind_some, readAll_cons,
    read_declaration hv (by simpa [followsType, pass] using htype), Option.bind_some]
  rfl

/-- A statement that is in scope is passed over. -/
theorem readAll_statement (types : List String) (before : List Token) (declared : List String)
    {Γ : List String} {ts : List Token}
    (h : Token.Scoped Γ (ts ++ [Token.mark ";"])) (hΓ : Γ ⊆ (b :: bs).flatten)
    (hborder : ∀ u ∈ before.head?, ∀ t ∈ (ts ++ [Token.mark ";"]).head?, u.Separated t) :
    ∃ after, readAll types (ts ++ [Token.mark ";"]) ⟨before, [], b :: bs, declared⟩ =
      some ⟨after, [], b :: bs, declared⟩ ∧ Settled after := by
  refine ⟨_, readAll_scoped h (by simpa [visible] using hΓ) hborder, ?_⟩
  rw [List.reverse_append]
  exact settled_cons_mark (by decide)

/-- An assignment to a stage output. -/
theorem readAll_reference {Γ : List String} {pre e : List Token}
    (hpre : IsReferencePrefix pre "o") (hw : isTemporary w = false) (he : Token.Inert Γ e)
    (hΓ : Γ ⊆ (b :: bs).flatten) (hbefore : Settled before) :
    ∃ after, readAll types (pre ++ Token.word w :: .mark "=" :: (e ++ [Token.mark ";"]))
      ⟨before, [], b :: bs, declared⟩ = some ⟨after, [], b :: bs, declared⟩ ∧ Settled after := by
  have hrest : Token.Scoped Γ (.word w :: .mark "=" :: (e ++ [Token.mark ";"])) :=
    ((he.scoped.append_mark (by decide)).cons_mark (by decide)).cons_word fun h ↦ by simp [hw] at h
  have hscoped : Token.Scoped Γ ((pre ++ Token.word w :: .mark "=" :: e) ++ [Token.mark ";"]) := by
    obtain rfl | rfl := hpre
    · exact hrest
    · exact (hrest.cons_mark (m := ".") (by decide)).cons_word fun h ↦ by cases h
  have hstatement := readAll_statement types before declared hscoped hΓ
    fun u hu t _ ↦ hbefore.separated t u hu
  simpa using hstatement

/-- A block that is opened and closed leaves the blocks around it as they were. -/
theorem readAll_block {ts : List Token} (before : List Token) (header : List String)
    {locals later : List String}
    (h : ∃ after, readAll types ts ⟨.mark "\x7b" :: before, [], header :: b :: bs, declared⟩ =
      some ⟨after, [], (locals ++ header) :: b :: bs, later⟩ ∧ Settled after) :
    ∃ after, readAll types (.mark "\x7b" :: (ts ++ [Token.mark "\x7d"])) ⟨before, header, b :: bs, declared⟩ =
      some ⟨after, [], b :: bs, later⟩ ∧ Settled after := by
  obtain ⟨after, hread, -⟩ := h
  refine ⟨.mark "\x7d" :: after, ?_, settled_cons_mark (by decide)⟩
  rw [readAll_cons, read_openBlock, Option.bind_some, readAll_append]
  simp only [openBlock, pass]
  rw [hread, Option.bind_some, readAll_cons, read_closeBlock rfl]
  rfl

end Scope

open Scope Token

/-- Code is read without failure where the temporaries that it takes from outside are visible. It
leaves the enclosing blocks as they were. -/
theorem Code.readAll {types Γ locals declared : List String} {ts : List Token} {slots : List Nat}
    (htypes : ∀ type ∈ types, isTemporary type = false)
    (h : Code types Γ ts locals declared slots) {before : List Token} (b : List String)
    (bs : List (List String)) (earlier : List String) (hΓ : Γ ⊆ (b :: bs).flatten)
    (hbefore : Settled before) :
    ∃ after, Scope.readAll types ts ⟨before, [], b :: bs, earlier⟩ =
      some ⟨after, [], (locals ++ b) :: bs, declared.reverse ++ earlier⟩ ∧ Settled after := by
  induction h generalizing before b bs earlier with
  | nil => exact ⟨before, rfl, hbefore⟩
  | append _ _ ih ih' =>
    obtain ⟨middle, hfirst, hmiddle⟩ := ih b bs earlier hΓ hbefore
    obtain ⟨after, hsecond, hafter⟩ := ih' (_ ++ b) bs _ (by
      simp only [List.flatten_cons, List.append_assoc] at hΓ ⊢
      exact List.append_subset.mpr ⟨List.subset_append_left .., fun x hx ↦
        List.mem_append_right _ (hΓ hx)⟩) hmiddle
    refine ⟨after, ?_, hafter⟩
    rw [readAll_append, hfirst, Option.bind_some, hsecond]
    simp
  | @statement Γ ts h hend =>
    refine ⟨ts.reverse ++ before, ?_, ?_⟩
    · exact readAll_scoped h.scoped (by simpa [visible] using hΓ)
        fun u hu t _ ↦ hbefore.separated t u hu
    · intro t ht
      rw [List.head?_append, List.head?_reverse] at ht
      cases hlast : ts.getLast? with
      | none =>
        rw [hlast] at ht
        exact hbefore t ht
      | some u =>
        rw [hlast] at ht
        obtain rfl : u = t := by simpa using ht
        obtain rfl | rfl | rfl := hend u hlast <;> exact ⟨rfl, by decide⟩
  | @declare Γ type v htype hv =>
    refine ⟨mark ";" :: word v :: word type :: before, ?_, settled_cons_mark (by decide)⟩
    rw [show [word type, word v, mark ";"] = [word type, word v] ++ [mark ";"] from rfl,
      readAll_append, readAll_declaration htypes htype hv fun rest ↦ hbefore.ne_header _]
    rfl
  | @define Γ pre type v e hpre htype hv he =>
    have hrest : Token.Scoped (v :: Γ) (mark "=" :: (e ++ [mark ";"])) :=
      (((he.mono (List.subset_cons_self v Γ)).scoped.append_mark (by decide))).cons_mark (by decide)
    obtain ⟨start, hstart, hne⟩ : ∃ start, Scope.readAll types pre ⟨before, [], b :: bs, earlier⟩ =
        some ⟨start, [], b :: bs, earlier⟩ ∧ ∀ rest, start ≠ mark "(" :: word "for" :: rest := by
      obtain rfl | rfl := hpre
      · exact ⟨before, rfl, fun rest ↦ hbefore.ne_header _⟩
      · exact ⟨word "const" :: before, by rw [readAll_cons, read_word (by decide)]; rfl, by simp⟩
    have hvisible : v :: Γ ⊆ ((v :: b) :: bs).flatten := by
      simpa using List.subset_cons_of_subset v hΓ
    obtain ⟨after, hafter, hsettled⟩ := readAll_statement types
      (word v :: word type :: start) (v :: earlier) (show Token.Scoped _ ((mark "=" :: e) ++ _) from hrest) hvisible
      (by simp [Separated, Token.isTemporary])
    refine ⟨after, ?_, hsettled⟩
    rw [readAll_append, hstart, Option.bind_some,
      show word type :: word v :: mark "=" :: (e ++ [mark ";"]) =
        [word type, word v] ++ (mark "=" :: e ++ [mark ";"]) from rfl,
      readAll_append, readAll_declaration htypes htype hv hne, Option.bind_some, hafter]
    rfl
  | @assign Γ v op e hv htemporary hop he =>
    have hrest := he.scoped.append_mark (m := ";") (by decide)
    have hscoped : Token.Scoped Γ ((word v :: (op ++ e)) ++ [mark ";"]) := by
      rw [List.cons_append, List.append_assoc]
      obtain rfl | rfl := hop
      · exact (hrest.cons_mark (m := "=") (by decide)).cons_word fun _ ↦ hv
      · exact ((hrest.cons_mark (m := "=") (by decide)).cons_mark (m := "+") (by decide)).cons_word
          fun _ ↦ hv
    have hstatement := readAll_statement types before earlier hscoped hΓ
      fun u hu t _ ↦ hbefore.separated t u hu
    simpa [List.append_assoc] using hstatement
  | @output Γ pre w e hpre hw hother he =>
    exact readAll_reference hpre hw he hΓ hbefore
  | @slot Γ pre slot e hpre he =>
    exact readAll_reference hpre (isTemporary_interpolatorName slot) he hΓ hbefore
  | @block Γ locals declared head ts hhead h ih =>
    have hopen : Settled (mark "\x7b" :: (head.reverse ++ before)) := settled_cons_mark (by decide)
    obtain ⟨after, hafter, hsettled⟩ := readAll_block _ []
      (ih [] (b :: bs) earlier (by simpa using hΓ) hopen)
    refine ⟨after, ?_, hsettled⟩
    rw [readAll_append, readAll_scoped hhead.scoped (by simpa [visible] using hΓ)
      fun u hu t _ ↦ hbefore.separated t u hu, Option.bind_some, hafter]
    rfl
  | @loop Γ locals declared type c test ts htype hc htest h ih =>
    have hscoped : Token.Scoped (c :: Γ) (mark "=" :: test) := htest.scoped.cons_mark (by decide)
    have hvisible : c :: Γ ⊆ ([c] :: b :: bs).flatten := by
      simpa using List.subset_cons_of_subset c hΓ
    have hopen : ∀ start, Settled (mark "\x7b" :: start) := fun start ↦ settled_cons_mark (by decide)
    obtain ⟨after, hafter, hsettled⟩ := readAll_block
      ((mark "=" :: test).reverse ++ word c :: word type :: mark "(" :: word "for" :: before) [c]
      (ih [c] (b :: bs) (c :: earlier) hvisible (hopen _))
    refine ⟨after, ?_, hsettled⟩
    rw [show word "for" :: mark "(" :: word type :: word c :: mark "=" ::
        (test ++ mark "\x7b" :: (ts ++ [mark "\x7d"])) =
        [word "for", mark "(", word type, word c] ++ ((mark "=" :: test) ++
          (mark "\x7b" :: (ts ++ [mark "\x7d"]))) from rfl,
      readAll_append, readAll_header htypes htype hc, Option.bind_some, readAll_append,
      readAll_scoped hscoped (by simpa [visible] using hvisible)
        (by simp [Separated, Token.isTemporary]), Option.bind_some, hafter]
    simp

/-- The temporaries that a body of code declares are found by reading it. -/
theorem Code.declarations?_eq {types locals declared : List String} {body : String}
    {slots : List Nat} (htypes : ∀ type ∈ types, isTemporary type = false)
    (h : Code types [] (tokens body) locals declared slots) :
    declarations? types body = some declared := by
  obtain ⟨after, hread, -⟩ := h.readAll htypes [] [] [] (by simp)
    (show Settled [] by simp [Settled])
  rw [declarations?, show ({} : Scope) = ⟨[], [], [[]], []⟩ from rfl, hread]
  simp

/-! ## Assignments of code -/

section Assignments

variable {types Γ locals declared : List String} {ts : List Token} {slots : List Nat}

theorem Token.Inert.head?_ne (h : Token.Inert Γ ts) : ts.head? ≠ some (.mark "=") := by
  intro heq
  have hmark := h.harmless (.mark "=") (List.mem_of_head? heq)
  simp [Token.Harmless] at hmark

/-- Code does not begin in the middle of an assignment. -/
theorem Code.head?_ne (h : Code types Γ ts locals declared slots) :
    ts.head? ≠ some (.mark "=") := by
  induction h with
  | nil => simp
  | @append _ _ _ _ _ ts us _ _ _ _ ih ih' =>
    cases ts with
    | nil => exact ih'
    | cons t ts => exact ih
  | statement h _ => exact h.head?_ne
  | declare => simp
  | define hpre => obtain rfl | rfl := hpre <;> simp
  | assign => simp
  | output hpre => obtain rfl | rfl := hpre <;> simp
  | slot hpre => obtain rfl | rfl := hpre <;> simp
  | @block _ _ _ head _ hhead =>
    cases head with
    | nil => simp
    | cons t head => exact hhead.head?_ne
  | loop => simp

/-- Assignments to interpolator slots. -/
def slotAssignments (depth : Nat) (ts : List Token) : List (Nat × String) :=
  (assignments depth ts).filter fun a ↦ isInterpolatorName a.2

theorem slotAssignments_inert (rest : List Token) (h : Token.Inert Γ ts) (depth : Nat)
    (hend : (∀ t ∈ ts.getLast?, t.isWord = false) ∨ assigns rest = false)
    (hrest : rest.head? ≠ some (.mark "=")) :
    slotAssignments depth (ts ++ rest) = slotAssignments depth rest := by
  rw [slotAssignments, assignments_harmless h.harmless hend hrest, slotAssignments]

theorem slotAssignments_statement (rest : List Token) (h : Token.Inert Γ ts) (depth : Nat) :
    slotAssignments depth (.mark "=" :: (ts ++ Token.mark ";" :: rest)) = slotAssignments depth rest := by
  have hpass : slotAssignments depth (.mark "=" :: (ts ++ Token.mark ";" :: rest)) =
      slotAssignments depth (ts ++ Token.mark ";" :: rest) := by
    simp [slotAssignments, assignments]
  rw [hpass, slotAssignments_inert _ h depth (.inr (by simp [assigns])) (by simp)]
  simp [slotAssignments, assignments]

theorem slotAssignments_reference (rest : List Token) {pre : List Token} {w : String}
    (hpre : IsReferencePrefix pre "o") (h : Token.Inert Γ ts) (depth : Nat) :
    slotAssignments depth (pre ++ Token.word w :: .mark "=" :: (ts ++ Token.mark ";" :: rest)) =
      (if isInterpolatorName w then [(depth, w)] else []) ++ slotAssignments depth rest := by
  rw [← slotAssignments_statement rest h depth]
  obtain rfl | rfl := hpre <;>
    by_cases hw : isInterpolatorName w <;> simp [slotAssignments, assignments, assigns, hw]

/-- Code assigns the interpolator slots that it is said to write, each once and in no block. -/
theorem Code.slotAssignments_eq (h : Code types Γ ts locals declared slots) (depth : Nat)
    (rest : List Token)
    (hrest : rest.head? ≠ some (.mark "=")) :
    slotAssignments depth (ts ++ rest) =
      slots.map (fun slot ↦ (depth, interpolatorName slot)) ++ slotAssignments depth rest := by
  induction h generalizing depth rest with
  | nil => rfl
  | @append _ _ _ _ _ ts us _ _ _ h' ih ih' =>
    have hmiddle : (us ++ rest).head? ≠ some (.mark "=") := by
      cases us with
      | nil => exact hrest
      | cons u us => exact h'.head?_ne
    rw [List.append_assoc, ih depth _ hmiddle, ih' depth rest hrest, List.map_append, List.append_assoc]
  | statement h hend =>
    refine slotAssignments_inert _ h depth (.inl fun t ht ↦ ?_) hrest
    obtain rfl | rfl | rfl := hend t ht <;> rfl
  | declare htype hv =>
    simp [slotAssignments, assignments, assigns]
  | @define _ pre type v e hpre htype hv he =>
    have hassigned := slotAssignments_reference rest (w := v) (.inl rfl) he depth
    rw [isInterpolatorName_of_isTemporary hv] at hassigned
    rw [List.map_nil, List.nil_append]
    refine Eq.trans ?_ hassigned
    obtain rfl | rfl := hpre <;> simp [slotAssignments, assignments, assigns]
  | @assign _ v op e hv htemporary hop he =>
    have hassigned := slotAssignments_reference rest (w := v) (.inl rfl) he depth
    rw [isInterpolatorName_of_isTemporary htemporary] at hassigned
    rw [List.map_nil, List.nil_append]
    refine Eq.trans ?_ hassigned
    obtain rfl | rfl := hop <;>
      simp [slotAssignments, assignments, assigns, isInterpolatorName_of_isTemporary htemporary]
  | @output _ pre w e hpre hw hother he =>
    have hassigned := slotAssignments_reference rest (w := w) hpre he depth
    simpa [hother] using hassigned
  | @slot _ pre slot e hpre he =>
    have hassigned :=
      slotAssignments_reference rest (w := interpolatorName slot) hpre he depth
    simpa [isInterpolatorName_interpolatorName] using hassigned
  | @block _ _ _ head ts hhead h ih =>
    have hbody := ih (depth + 1) (.mark "\x7d" :: rest) (by simp)
    rw [List.append_assoc, slotAssignments_inert _ hhead depth (.inr (by simp [assigns])) (by simp)]
    simp only [slotAssignments, List.cons_append, List.append_assoc, List.nil_append, assignments,
      List.map_nil] at hbody ⊢
    simpa using hbody
  | @loop _ _ _ type c test ts htype hc htest h ih =>
    have hbody := ih (depth + 1) (.mark "\x7d" :: rest) (by simp)
    have htested := slotAssignments_inert (Token.mark "\x7b" :: (ts ++ Token.mark "\x7d" :: rest))
      htest depth (.inr (by simp [assigns])) (by simp)
    simp only [slotAssignments, List.cons_append, List.append_assoc, List.nil_append, assignments,
      List.map_nil] at hbody htested ⊢
    simp [assigns, isInterpolatorName_of_isTemporary hc] at hbody htested ⊢
    rw [htested, hbody]

end Assignments

end ShaderGraph
