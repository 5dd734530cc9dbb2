import Mathlib.Data.List.Chain
import ShaderGraph.Source.Buffer

/-!
# Tokens and phrases of a source text

A phrase is a text put together from atoms and fixed pieces of syntax in such a way that two atoms of
it never stand next to each other. Expressions are phrases, and so are the lines that declare and assign
nothing. What the atoms of a phrase do, the phrase does: it neither opens nor closes a block, assigns
nothing, and names the temporaries that its atoms name.
-/

namespace ShaderGraph

/-! ## Tokens

A source is read as words and marks. A word is a longest run of letters, digits and underscores; the
characters of comparisons and assignments form longest runs as well, and every other visible
character stands for itself. Space between tokens carries no meaning.
-/

/-- What a character does in a source. -/
inductive Glyph
  | letter
  | relation
  | single
  | blank
deriving DecidableEq, Repr

def glyphOf (c : Char) : Glyph :=
  if c.isAlphanum || c = '_' then .letter
  else if c ∈ ['=', '<', '>', '!'] then .relation
  else if c.isWhitespace then .blank
  else .single

/-- Whether neighbouring characters of the glyph belong to one token. -/
def Glyph.joins : Glyph → Bool
  | letter | relation => true
  | single | blank => false

structure Lexeme where
  glyph : Glyph
  text : List Char
deriving DecidableEq, Repr

inductive Token
  | word (text : String)
  | mark (text : String)
deriving DecidableEq, Repr

/-- Puts a character in front of a list of lexemes. -/
def prependChar (c : Char) : List Lexeme → List Lexeme
  | [] => [⟨glyphOf c, [c]⟩]
  | l :: ls =>
    if l.glyph = glyphOf c ∧ l.glyph.joins then ⟨l.glyph, c :: l.text⟩ :: ls
    else ⟨glyphOf c, [c]⟩ :: l :: ls

def lexemes (cs : List Char) : List Lexeme :=
  cs.foldr prependChar []

def Lexeme.token? (l : Lexeme) : Option Token :=
  match l.glyph with
  | .letter => some (.word (String.ofList l.text))
  | .relation | .single => some (.mark (String.ofList l.text))
  | .blank => none

def tokens (s : String) : List Token :=
  (lexemes s.toList).filterMap Lexeme.token?

/-! ### Concatenation -/

/-- No token reaches across the border between the two texts. -/
def Apart (as bs : List Char) : Prop :=
  ∀ a ∈ as.getLast?, ∀ b ∈ bs.head?, glyphOf a = glyphOf b → (glyphOf a).joins = false

theorem lexemes_head_glyph {l : Lexeme} {b : Char} {bs : List Char}
    (h : l ∈ (lexemes (b :: bs)).head?) : l.glyph = glyphOf b := by
  simp only [lexemes, List.foldr_cons] at h
  cases hls : bs.foldr prependChar [] with
  | nil =>
    rw [hls] at h
    cases h
    rfl
  | cons l' ls =>
    rw [hls, prependChar] at h
    split at h
    · next hjoin =>
      cases h
      exact hjoin.1
    · cases h
      rfl

theorem foldr_prependChar_of_apart (as : List Char) (ls : List Lexeme)
    (h : ∀ a ∈ as.getLast?, ∀ l ∈ ls.head?, l.glyph = glyphOf a → l.glyph.joins = false) :
    as.foldr prependChar ls = lexemes as ++ ls := by
  induction as with
  | nil => rfl
  | cons a as ih =>
    cases as with
    | nil =>
      cases ls with
      | nil => rfl
      | cons l ls =>
        have hl : ¬ (l.glyph = glyphOf a ∧ l.glyph.joins) := fun hjoin ↦ by
          have hnot := h a rfl l rfl hjoin.1
          rw [hjoin.2] at hnot
          cases hnot
        simp [lexemes, prependChar, hl]
    | cons b bs =>
      have ih' := ih fun c hc ↦ h c (by simpa using hc)
      rw [List.foldr_cons, ih']
      change prependChar a (lexemes (b :: bs) ++ ls) = prependChar a (lexemes (b :: bs)) ++ ls
      cases hlex : lexemes (b :: bs) with
      | nil =>
        simp only [lexemes, List.foldr_cons] at hlex
        cases hrest : bs.foldr prependChar [] with
        | nil => simp [hrest, prependChar] at hlex
        | cons l ls =>
          simp only [hrest, prependChar] at hlex
          split at hlex <;> cases hlex
      | cons l ls' =>
        simp only [List.cons_append, prependChar]
        split <;> rfl

theorem lexemes_append {as bs : List Char} (h : Apart as bs) :
    lexemes (as ++ bs) = lexemes as ++ lexemes bs := by
  rw [lexemes, List.foldr_append]
  refine foldr_prependChar_of_apart as (lexemes bs) fun a ha l hl heq ↦ ?_
  cases bs with
  | nil => cases hl
  | cons b bs =>
    have hglyph := lexemes_head_glyph hl
    rw [heq]
    exact h a ha b rfl (heq.symm.trans hglyph)

theorem tokens_append {a b : String} (h : Apart a.toList b.toList) :
    tokens (a ++ b) = tokens a ++ tokens b := by
  rw [tokens, String.toList_append, lexemes_append h, List.filterMap_append]
  rfl

/-- The first character of the text, if any, is part of no longer token. -/
def StartsApart (s : String) : Prop :=
  ∀ c ∈ s.toList.head?, (glyphOf c).joins = false

/-- The last character of the text, if any, is part of no longer token. -/
def EndsApart (s : String) : Prop :=
  ∀ c ∈ s.toList.getLast?, (glyphOf c).joins = false

instance (s : String) : Decidable (StartsApart s) :=
  (Option.decidableForallMem s.toList.head? :
    Decidable (∀ c ∈ s.toList.head?, (glyphOf c).joins = false))

instance (s : String) : Decidable (EndsApart s) :=
  (Option.decidableForallMem s.toList.getLast? :
    Decidable (∀ c ∈ s.toList.getLast?, (glyphOf c).joins = false))

theorem tokens_append_of_startsApart {a b : String} (h : StartsApart b) :
    tokens (a ++ b) = tokens a ++ tokens b :=
  tokens_append fun _ _ c hc heq ↦ heq ▸ h c hc

theorem tokens_append_of_endsApart {a b : String} (h : EndsApart a) :
    tokens (a ++ b) = tokens a ++ tokens b :=
  tokens_append fun c hc _ _ _ ↦ h c hc

theorem EndsApart.append {a m : String} (hm : EndsApart m) (hne : m ≠ "") : EndsApart (a ++ m) := by
  intro c hc
  rw [String.toList_append, List.getLast?_append] at hc
  cases hlast : m.toList.getLast? with
  | none => exact absurd (by simpa using hlast) hne
  | some d =>
    rw [hlast] at hc
    exact hm c (hlast.trans hc)

@[simp]
theorem tokens_empty : tokens "" = [] := rfl

/-! ### Length -/

theorem length_lexemes_le (cs : List Char) : (lexemes cs).length ≤ cs.length := by
  induction cs with
  | nil => exact Nat.le_refl 0
  | cons c cs ih =>
    have hprepend (ls : List Lexeme) : (prependChar c ls).length ≤ ls.length + 1 := by
      unfold prependChar
      split
      · exact Nat.le_refl 1
      · split <;> simp
    calc (lexemes (c :: cs)).length
        ≤ (lexemes cs).length + 1 := hprepend (lexemes cs)
      _ ≤ cs.length + 1 := Nat.add_le_add_right ih 1

theorem length_tokens_le (s : String) : (tokens s).length ≤ s.length :=
  calc (tokens s).length
      ≤ (lexemes s.toList).length := List.length_filterMap_le ..
    _ ≤ s.toList.length := length_lexemes_le _
    _ = s.length := String.length_toList

/-! ### Words -/

/-- The text is a run of letters, digits and underscores, or empty. -/
def IsWord (s : String) : Prop :=
  ∀ c ∈ s.toList, glyphOf c = .letter

instance (s : String) : Decidable (IsWord s) :=
  List.decidableBAll (glyphOf · = .letter) s.toList

theorem lexemes_of_letters {c : Char} {cs : List Char} (h : ∀ d ∈ c :: cs, glyphOf d = .letter) :
    lexemes (c :: cs) = [⟨.letter, c :: cs⟩] := by
  induction cs generalizing c with
  | nil => simp [lexemes, prependChar, h c (by simp)]
  | cons d ds ih =>
    have hrest := ih fun e he ↦ h e (List.mem_cons_of_mem c he)
    change prependChar c (lexemes (d :: ds)) = _
    rw [hrest, prependChar, h c (by simp)]
    rfl

theorem tokens_word {s : String} (h : IsWord s) (hne : s ≠ "") : tokens s = [.word s] := by
  cases hs : s.toList with
  | nil => exact absurd (by simpa using hs) hne
  | cons c cs =>
    have hletters : ∀ d ∈ c :: cs, glyphOf d = .letter := fun d hd ↦ h d (hs ▸ hd)
    rw [tokens, hs, lexemes_of_letters hletters]
    simp [Lexeme.token?, ← hs]

/-! ## Phrases -/

/-- Whether a word has the form of the name of a temporary. -/
def isTemporary (s : String) : Bool :=
  match s.toList with
  | 'v' :: c :: cs => (c :: cs).all Char.isDigit
  | _ => false

/-- A word that is no temporary. -/
def IsPlainWord (s : String) : Prop :=
  IsWord s ∧ isTemporary s = false

instance (s : String) : Decidable (IsPlainWord s) :=
  inferInstanceAs (Decidable (_ ∧ _))

/-- The variables through which targets with structs name the inputs and outputs of a stage. -/
def structVariables : List String :=
  ["i", "o"]

/-- A word of the syntax, which names neither a temporary nor a struct. -/
def IsSyntaxWord (s : String) : Prop :=
  IsPlainWord s ∧ s ∉ structVariables

instance (s : String) : Decidable (IsSyntaxWord s) :=
  inferInstanceAs (Decidable (_ ∧ _))

namespace Token

def isWord : Token → Bool
  | word _ => true
  | mark _ => false

/-- The token neither delimits a block nor assigns, and if it is a temporary it is one of `names`. -/
def Harmless (names : List String) : Token → Prop
  | word w => isTemporary w → w ∈ names
  | mark m => m ∉ ["\x7b", "\x7d", "="]

instance (names : List String) : (t : Token) → Decidable (t.Harmless names)
  | word w => inferInstanceAs (Decidable (isTemporary w → w ∈ names))
  | mark m => inferInstanceAs (Decidable (m ∉ _))

def isTemporary : Token → Bool
  | word w => ShaderGraph.isTemporary w
  | mark _ => false

/-- No word stands in front of a temporary. -/
def Separated (a b : Token) : Prop :=
  ¬ (a.isWord ∧ b.isTemporary)

instance (a b : Token) : Decidable (a.Separated b) :=
  inferInstanceAs (Decidable (¬ _))

theorem isTemporary_of_not_isWord {t : Token} (h : t.isWord = false) : t.isTemporary = false := by
  cases t with
  | word w => cases h
  | mark m => rfl

theorem Harmless.mono {names more : List String} (hsub : names ⊆ more) {t : Token}
    (h : t.Harmless names) : t.Harmless more := by
  cases t with
  | word w => exact fun hw ↦ hsub (h hw)
  | mark m => exact h

end Token

/-- The text holds no end of a line. -/
def IsLine (s : String) : Prop :=
  ∀ c ∈ s.toList, c ≠ '\n' ∧ c ≠ '\r'

instance (s : String) : Decidable (IsLine s) :=
  List.decidableBAll (fun c ↦ c ≠ '\n' ∧ c ≠ '\r') s.toList

-- A literal is the text of its characters by definition, so that these lemmas apply to it, and nothing
-- has to be decoded.

theorem isLine_ofList {cs : List Char} (h : cs.all fun c ↦ c ≠ '\n' ∧ c ≠ '\r') :
    IsLine (String.ofList cs) := by
  rw [IsLine, String.toList_ofList]
  simpa using h

theorem forall_isLine_cons {cs : List Char} {lines : List String}
    (h : cs.all fun c ↦ c ≠ '\n' ∧ c ≠ '\r') (hlines : ∀ l ∈ lines, IsLine l) :
    ∀ l ∈ String.ofList cs :: lines, IsLine l :=
  List.forall_mem_cons.mpr ⟨isLine_ofList h, hlines⟩

theorem tokens_ofList (cs : List Char) :
    tokens (String.ofList cs) = (lexemes cs).filterMap Lexeme.token? := by
  rw [tokens, String.toList_ofList]

theorem IsLine.append {a b : String} (ha : IsLine a) (hb : IsLine b) : IsLine (a ++ b) := by
  intro c hc
  rw [String.toList_append, List.mem_append] at hc
  exact hc.elim (ha c) (hb c)

theorem IsWord.isLine {s : String} (h : IsWord s) : IsLine s := by
  intro c hc
  have hglyph := h c hc
  constructor <;> rintro rfl <;> cases hglyph

/-- A piece of one line that declares and assigns nothing and in which every temporary is one of
`names`. -/
structure Quiet (names : List String) (s : String) : Prop where
  harmless : ∀ t ∈ tokens s, t.Harmless names
  separated : (tokens s).IsChain Token.Separated
  isLine : IsLine s

instance (names : List String) (s : String) : Decidable (Quiet names s) :=
  decidable_of_iff ((∀ t ∈ tokens s, t.Harmless names) ∧ (tokens s).IsChain Token.Separated ∧
    IsLine s) ⟨fun h ↦ ⟨h.1, h.2.1, h.2.2⟩, fun h ↦ ⟨h.1, h.2, h.3⟩⟩

/-- Syntax after which a phrase may follow. -/
structure Opening (s : String) : Prop where
  quiet : Quiet [] s
  structFree : ∀ name ∈ structVariables, Token.word name ∉ tokens s
  endsApart : EndsApart s
  endsInMark : ∀ t ∈ (tokens s).getLast?, t.isWord = false
  nonempty : tokens s ≠ []

/-- Syntax that may follow after a phrase. -/
structure Closing (s : String) : Prop where
  quiet : Quiet [] s
  structFree : ∀ name ∈ structVariables, Token.word name ∉ tokens s
  startsApart : StartsApart s
  startsInMark : ∀ t ∈ (tokens s).head?, t.isWord = false
  nonempty : tokens s ≠ []

instance (s : String) : Decidable (Opening s) :=
  decidable_of_iff (Quiet [] s ∧ (∀ name ∈ structVariables, Token.word name ∉ tokens s) ∧
    EndsApart s ∧ (∀ t ∈ (tokens s).getLast?, t.isWord = false) ∧ tokens s ≠ [])
    ⟨fun h ↦ ⟨h.1, h.2.1, h.2.2.1, h.2.2.2.1, h.2.2.2.2⟩, fun h ↦ ⟨h.1, h.2, h.3, h.4, h.5⟩⟩

instance (s : String) : Decidable (Closing s) :=
  decidable_of_iff (Quiet [] s ∧ (∀ name ∈ structVariables, Token.word name ∉ tokens s) ∧
    StartsApart s ∧ (∀ t ∈ (tokens s).head?, t.isWord = false) ∧ tokens s ≠ [])
    ⟨fun h ↦ ⟨h.1, h.2.1, h.2.2.1, h.2.2.2.1, h.2.2.2.2⟩, fun h ↦ ⟨h.1, h.2, h.3, h.4, h.5⟩⟩

/-- A text put together from atoms, words and syntax between them. -/
inductive Phrase (atom : String → Prop) : String → Prop
  | atom {s : String} (h : atom s) : Phrase atom s
  | word {s : String} (h : IsSyntaxWord s) : Phrase atom s
  | after {m b : String} (hm : Opening m) (hb : Phrase atom b) : Phrase atom (m ++ b)
  | before {a m : String} (ha : Phrase atom a) (hm : Closing m) : Phrase atom (a ++ m)
  | between {a m b : String} (ha : Phrase atom a) (hm : Closing m ∧ Opening m)
    (hb : Phrase atom b) : Phrase atom (a ++ m ++ b)

theorem Phrase.bind {p q : String → Prop} {s : String} (h : Phrase p s)
    (hpq : ∀ a, p a → Phrase q a) : Phrase q s := by
  induction h with
  | atom h => exact hpq _ h
  | word h => exact .word h
  | after hm _ hb => exact .after hm hb
  | before _ hm ha => exact .before ha hm
  | between _ hm _ ha hb => exact .between ha hm hb

theorem Phrase.mono {p q : String → Prop} {s : String} (h : Phrase p s) (hpq : ∀ a, p a → q a) :
    Phrase q s :=
  h.bind fun a ha ↦ .atom (hpq a ha)

/-- Syntax with which a line ends. -/
def Ending (s : String) : Prop :=
  ∀ t ∈ (tokens s).getLast?, t = .mark ")" ∨ t = .mark ";" ∨ t = .mark "]"

instance (s : String) : Decidable (Ending s) :=
  inferInstanceAs (Decidable (∀ t ∈ (tokens s).getLast?, _))

/-- A phrase that some syntax completes to a line of its own. -/
def Sentence (atom : String → Prop) (s : String) : Prop :=
  ∃ body m, s = body ++ m ∧ Phrase atom body ∧ Closing m ∧ Ending m

/-! ### Phrases are quiet if their atoms are -/

namespace Quiet

variable {names : List String} {a b m s : String}

theorem mono {more : List String} (hsub : names ⊆ more) (h : Quiet names s) : Quiet more s :=
  ⟨fun t ht ↦ (h.harmless t ht).mono hsub, h.separated, h.isLine⟩

/-- Texts can be joined between a mark and any token. -/
theorem append (ha : Quiet names a) (hb : Quiet names b)
    (htokens : tokens (a ++ b) = tokens a ++ tokens b)
    (hborder : ∀ x ∈ (tokens a).getLast?, ∀ y ∈ (tokens b).head?, x.Separated y) :
    Quiet names (a ++ b) where
  harmless t ht := by
    rw [htokens, List.mem_append] at ht
    exact ht.elim (ha.harmless t) (hb.harmless t)
  separated := by
    rw [htokens]
    exact ha.separated.append hb.separated hborder
  isLine := ha.isLine.append hb.isLine

theorem append_opening (hm : Opening m) (hb : Quiet names b) : Quiet names (m ++ b) :=
  append (hm.quiet.mono (List.nil_subset names)) hb (tokens_append_of_endsApart hm.endsApart)
    fun x hx _ _ ↦ by simp [Token.Separated, hm.endsInMark x hx]

theorem append_closing (ha : Quiet names a) (hm : Closing m) : Quiet names (a ++ m) :=
  append ha (hm.quiet.mono (List.nil_subset names)) (tokens_append_of_startsApart hm.startsApart)
    fun _ _ y hy ↦ by
      simp [Token.Separated, Token.isTemporary_of_not_isWord (hm.startsInMark y hy)]

theorem of_word (h : IsWord s) (hs : isTemporary s → s ∈ names) : Quiet names s where
  harmless t ht := by
    by_cases hne : s = ""
    · subst hne
      cases ht
    · rw [tokens_word h hne, List.mem_singleton] at ht
      subst ht
      exact hs
  separated := by
    by_cases hne : s = ""
    · subst hne
      exact List.isChain_nil
    · rw [tokens_word h hne]
      exact List.isChain_singleton _
  isLine := h.isLine

end Quiet

theorem Phrase.quiet {atom : String → Prop} {names : List String} {s : String}
    (h : Phrase atom s) (hatom : ∀ a, atom a → Quiet names a) : Quiet names s := by
  induction h with
  | atom h => exact hatom _ h
  | word h => exact Quiet.of_word h.1.1 fun htemp ↦ by simp [h.1.2] at htemp
  | after hm _ hb => exact hb.append_opening hm
  | before _ hm ha => exact ha.append_closing hm
  | @between a m b _ hm _ ha hb =>
    have hne : m ≠ "" := by
      rintro rfl
      exact hm.1.nonempty rfl
    have htokens := tokens_append_of_startsApart (a := a) hm.1.startsApart
    refine (ha.append_closing hm.1).append hb
      (tokens_append_of_endsApart (hm.2.endsApart.append hne)) fun x hx y _ ↦ ?_
    rw [htokens, List.getLast?_append] at hx
    cases hlast : (tokens m).getLast? with
    | none => exact absurd (by simpa using hlast) hm.1.nonempty
    | some z =>
      rw [hlast] at hx
      have hmark := hm.2.endsInMark x (hlast.trans hx)
      simp [Token.Separated, hmark]

theorem Sentence.quiet {atom : String → Prop} {names : List String} {s : String}
    (h : Sentence atom s) (hatom : ∀ a, atom a → Quiet names a) : Quiet names s := by
  obtain ⟨body, m, rfl, hbody, hclosing, -⟩ := h
  exact (hbody.quiet hatom).append_closing hclosing

/-! ### Temporaries and numbers -/

theorem glyphOf_of_isDigit {c : Char} (h : c.isDigit) : glyphOf c = .letter := by
  simp [glyphOf, Char.isAlphanum, h]

/-- A text of digits is a word. -/
theorem isSyntaxWord_of_digits {s : String} (h : ∀ c ∈ s.toList, c.isDigit) : IsSyntaxWord s := by
  refine ⟨⟨fun c hc ↦ glyphOf_of_isDigit (h c hc), ?_⟩, fun hs ↦ ?_⟩
  · unfold isTemporary
    split
    · next hs =>
      have hv := h 'v' (by simp [hs])
      cases hv
    · rfl
  · obtain rfl | rfl : s = "i" ∨ s = "o" := by simpa [structVariables] using hs
    · cases h 'i' (by simp)
    · cases h 'o' (by simp)

theorem isSyntaxWord_toString (k : Nat) : IsSyntaxWord (toString k) := by
  refine isSyntaxWord_of_digits fun c hc ↦ ?_
  rw [Nat.toString_eq_repr, Nat.toList_repr] at hc
  exact Nat.isDigit_of_mem_toDigits (by omega) (by omega) hc

theorem isPlainWord_toString (k : Nat) : IsPlainWord (toString k) :=
  (isSyntaxWord_toString k).1

end ShaderGraph
