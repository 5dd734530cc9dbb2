import ShaderGraph.Proofs.Ron.Number
import ShaderGraph.Proofs.Text.Hex
import ShaderGraph.Ron.Quoted
import ShaderGraph.Ron.Token

/-!
# Tokens of printed text

What is printed for a word, a number or a quoted text is one token, if a separator follows. The
tokens of a longer text come from those of its pieces, read from the end.
-/

namespace ShaderGraph.Ron

/-! ## Quoted text

Every character is read back from what is written for it, whether that is a short escape, an escape
by code point or the character itself.
-/

section

variable {limit : Nat} {c : Char} {cs rest more left : List Char}

/-! ### Steps of the reader -/

theorem readText_quote (limit : Nat) (rest : List Char) :
    readText (limit + 1) ('"' :: rest) = some ([], rest) := by
  rw [readText]

theorem readText_plain (hquote : c ≠ '"') (hbackslash : c ≠ '\\')
    (h : readText limit cs = some (more, left)) :
    readText (limit + 1) (c :: cs) = some (c :: more, left) := by
  rw [readText]
  · simp [h]
  · exact hquote
  · exact hbackslash

theorem readText_escape (hescape : readTextEscape cs = some (c, rest))
    (h : readText limit rest = some (more, left)) :
    readText (limit + 1) ('\\' :: cs) = some (c :: more, left) := by
  rw [readText]
  simp [hescape, h]

/-! ### Escapes -/

theorem readTextEscape_short {letter : Char} (h : shortEscape? c = some letter) (rest : List Char) :
    readTextEscape (letter :: rest) = some (c, rest) := by
  unfold shortEscape? at h
  split_ifs at h with hself hnewline hreturn htab hzero
  · obtain rfl := Option.some.inj h
    obtain rfl | rfl | rfl := hself <;> rfl
  all_goals
    obtain rfl := Option.some.inj h
    subst c
    rfl

/-- The digits of a code point denote its character. -/
theorem ofCodePoint?_toDigits (c : Char) : ofCodePoint? (Nat.toDigits 16 c.toNat) = some c := by
  have hne : (Nat.toDigits 16 c.toNat).isEmpty = false :=
    List.isEmpty_eq_false_iff.mpr Nat.toDigits_ne_nil
  have hvalid : c.toNat.isValidChar := c.valid
  have hlength : (Nat.toDigits 16 c.toNat).length ≤ 6 := by
    rw [Nat.length_toDigits_le_iff (by decide) (by decide)]
    unfold Nat.isValidChar at hvalid
    omega
  rw [ofCodePoint?, hne, Bool.false_or, if_neg (by simpa using hlength), ofHexDigits?_toDigits]
  simp [hvalid]

theorem readTextEscape_codePoint (c : Char) (rest : List Char) :
    readTextEscape ('u' :: '{' :: (Nat.toDigits 16 c.toNat ++ '}' :: rest)) = some (c, rest) := by
  have hdigit : ∀ d ∈ Nat.toDigits 16 c.toNat, decide (d ≠ '}') = true := by
    intro d hd
    refine decide_eq_true ?_
    rintro rfl
    exact Bool.false_ne_true (hexValue?_of_mem_toDigits hd)
  have htake : (Nat.toDigits 16 c.toNat ++ '}' :: rest).takeWhile (· ≠ '}') =
      Nat.toDigits 16 c.toNat := by
    rw [List.takeWhile_append_of_pos hdigit]
    simp
  rw [readTextEscape, readEscape, htake]
  simp [ofCodePoint?_toDigits]

theorem readText_escapeChar (h : readText limit rest = some (more, left)) :
    readText (limit + 1) (escapeChar c ++ rest) = some (c :: more, left) := by
  unfold escapeChar
  split
  · next letter hletter => exact readText_escape (readTextEscape_short hletter rest) h
  · next hnone =>
    split
    · rw [List.cons_append, List.cons_append, List.cons_append, List.append_assoc]
      exact readText_escape (readTextEscape_codePoint c rest) h
    · refine readText_plain ?_ ?_ h
      · rintro rfl
        cases hnone
      · rintro rfl
        cases hnone

/-- Reading a quoted text gives the text and what follows it. -/
theorem readText_quoted (cs rest : List Char) (hlimit : cs.length < limit) :
    readText limit (cs.flatMap escapeChar ++ '"' :: rest) = some (cs, rest) := by
  induction cs generalizing limit with
  | nil =>
    obtain ⟨limit, rfl⟩ := Nat.exists_eq_succ_of_ne_zero hlimit.ne'
    exact readText_quote limit rest
  | cons c cs ih =>
    obtain ⟨limit, rfl⟩ := Nat.exists_eq_succ_of_ne_zero (Nat.zero_lt_of_lt hlimit).ne'
    rw [List.flatMap_cons, List.append_assoc]
    exact readText_escapeChar (ih (Nat.lt_of_succ_lt_succ hlimit))

/-- No character is left out. -/
theorem length_le_escaped (cs : List Char) : cs.length ≤ (cs.flatMap escapeChar).length := by
  induction cs with
  | nil => rfl
  | cons c cs ih =>
    have hc : 0 < (escapeChar c).length := by
      unfold escapeChar
      split
      · exact Nat.two_pos
      · split <;> simp
    rw [List.flatMap_cons, List.length_append, List.length_cons]
    omega

end

/-! ## Tokens -/

/-! ### Runs of the tokenizer -/

/-- A text has these tokens, and each of them uses up a character at least. -/
inductive Lexes : List Char → List Token → Prop
  | nil : Lexes [] []
  | blank {c : Char} {cs : List Char} {ts : List Token} (hc : isBlank c = true) (h : Lexes cs ts) :
      Lexes (c :: cs) ts
  | token {c : Char} {cs rest : List Char} {t : Token} {ts : List Token} (hc : isBlank c = false)
      (hslash : c ≠ '/') (hread : readToken (c :: cs) = some (t, rest))
      (hlength : rest.length ≤ cs.length) (h : Lexes rest ts) : Lexes (c :: cs) (t :: ts)

variable {c : Char} {cs rest : List Char} {ts : List Token}

theorem Lexes.tokensWithin (h : Lexes cs ts) {limit : Nat} (hlimit : cs.length ≤ limit) :
    tokensWithin limit cs = some ts := by
  induction h generalizing limit with
  | nil => cases limit <;> rfl
  | blank hc _ ih =>
    obtain ⟨limit, rfl⟩ := Nat.exists_eq_succ_of_ne_zero (Nat.zero_lt_of_lt hlimit).ne'
    rw [Ron.tokensWithin, if_pos hc]
    exact ih (Nat.le_of_succ_le_succ hlimit)
  | token hc hslash hread hlength _ ih =>
    obtain ⟨limit, rfl⟩ := Nat.exists_eq_succ_of_ne_zero (Nat.zero_lt_of_lt hlimit).ne'
    rw [Ron.tokensWithin, hc, if_neg Bool.false_ne_true, if_neg hslash, hread]
    simp [ih (hlength.trans (Nat.le_of_succ_le_succ hlimit))]

theorem Lexes.tokens? {s : String} (h : Lexes s.toList ts) : tokens? s = some ts :=
  h.tokensWithin (String.length_toList (s := s)).le

/-! ### Separators -/

/-- Characters that follow a printed word or number. -/
def separators : List Char :=
  ['(', ')', '[', ']', '{', '}', ',', ':', '\n', ' ']

/-- The text is empty or starts with a separator. -/
def Separated (cs : List Char) : Prop :=
  ∀ c ∈ cs.head?, c ∈ separators

theorem separated_nil : Separated [] :=
  fun _ h ↦ nomatch h

theorem separated_cons (hc : c ∈ separators) (cs : List Char) : Separated (c :: cs) := by
  rintro _ ⟨⟩
  exact hc

theorem separators_apart : ∀ c ∈ separators,
    isIdentifierContinue c = false ∧ isNumberPart c = false ∧ isRawPart c = false := by
  have hall : separators.all
      (fun c ↦ !isIdentifierContinue c && !isNumberPart c && !isRawPart c) = true := by
    decide
  simpa [and_assoc] using List.all_eq_true.mp hall

/-- Characters of a class end where a separator follows, if no separator lies in the class. -/
theorem takeWhile_separated {p : Char → Bool} (hp : ∀ c ∈ separators, p c = false)
    (hcs : ∀ c ∈ cs, p c = true) (hrest : Separated rest) : (cs ++ rest).takeWhile p = cs := by
  rw [List.takeWhile_append_of_pos hcs]
  cases rest with
  | nil => simp
  | cons c rest => simp [hp c (hrest c rfl)]

/-- A character of a class is none of those that lie outside of it. -/
theorem notMem_of_class {p : Char → Bool} {others : List Char} (hothers : others.any p = false)
    (hc : p c = true) : c ∉ others :=
  fun hmem ↦ List.any_eq_false.mp hothers c hmem hc

/-! ### Marks and blanks -/

theorem Lexes.mark (hc : isMark c = true) (h : Lexes rest ts) : Lexes (c :: rest) (.mark c :: ts) := by
  have hmem : c ∈ ['(', ')', '[', ']', '{', '}', ',', ':', '#', '!'] := of_decide_eq_true hc
  simp only [List.mem_cons, List.not_mem_nil, or_false] at hmem
  obtain rfl | rfl | rfl | rfl | rfl | rfl | rfl | rfl | rfl | rfl := hmem <;>
    exact .token rfl (by decide) rfl le_rfl h

theorem Lexes.blanks (n : Nat) (h : Lexes rest ts) : Lexes (List.replicate n ' ' ++ rest) ts := by
  induction n with
  | zero => exact h
  | succ n ih => exact .blank rfl ih

/-! ### Quoted texts -/

theorem Lexes.text (s : String) (h : Lexes rest ts) :
    Lexes ((quote s).toList ++ rest) (.text s :: ts) := by
  rw [quote, String.toList_ofList, List.cons_append, List.append_assoc]
  refine .token rfl (by decide) ?_ ?_ h
  · have hlimit : s.toList.length < (s.toList.flatMap escapeChar ++ (['"'] ++ rest)).length + 1 := by
      have hescaped := length_le_escaped s.toList
      rw [List.length_append]
      omega
    rw [readToken]
    erw [readText_quoted s.toList rest hlimit]
    rw [Option.map_some, textToken, String.ofList_toList]
  · rw [List.length_append, List.length_append]
    omega

/-! ### Numbers -/

/-- A character that starts no quoted text and no raw name. -/
theorem readToken_plain (hquote : c ∉ ['"', '\'', 'b', 'r']) (cs : List Char) :
    readToken (c :: cs) =
      if isMark c then some (.mark c, cs)
      else if isNumberStart c then
        some (.number (c :: cs.takeWhile isNumberPart),
          (c :: cs).drop (c :: cs.takeWhile isNumberPart).length)
      else if isIdentifierStart c then some (readIdentifier (c :: cs))
      else none := by
  unfold readToken
  split <;> simp_all

theorem Lexes.number (hstart : isNumberStart c = true) (hcs : ∀ d ∈ cs, isNumberPart d = true)
    (hrest : Separated rest) (h : Lexes rest ts) :
    Lexes (c :: cs ++ rest) (.number (c :: cs) :: ts) := by
  have hmark : isMark c = false := decide_eq_false (notMem_of_class (by decide) hstart)
  have hblank : isBlank c = false := decide_eq_false (notMem_of_class (by decide) hstart)
  have hslash : c ∉ ['/'] := notMem_of_class (by decide) hstart
  rw [List.cons_append]
  refine .token hblank (List.ne_of_not_mem_cons hslash) ?_ (by simp) h
  rw [readToken_plain (notMem_of_class (by decide) hstart), hmark, if_neg Bool.false_ne_true,
    if_pos hstart, takeWhile_separated (fun d hd ↦ (separators_apart d hd).2.1) hcs hrest]
  simp

theorem isNumberPart_digit (hc : c.isDigit = true) : isNumberPart c = true := by
  simp [isNumberPart, Char.isAlphanum, hc]

theorem Lexes.signed (negative : Bool) (hc : c.isDigit = true)
    (hcs : ∀ d ∈ cs, isNumberPart d = true) (hrest : Separated rest) (h : Lexes rest ts) :
    Lexes (signedText negative (c :: cs) ++ rest) (.number (signedText negative (c :: cs)) :: ts) := by
  cases negative with
  | true => exact .number rfl (List.forall_mem_cons.mpr ⟨isNumberPart_digit hc, hcs⟩) hrest h
  | false => exact .number (by simp [isNumberStart, hc]) hcs hrest h

theorem Lexes.int (n : Int) (hrest : Separated rest) (h : Lexes rest ts) :
    Lexes ((toString n).toList ++ rest) (.number (toString n).toList :: ts) := by
  obtain ⟨c, cs, hdigits, hc⟩ := toDigits_eq_cons n.natAbs
  rw [toList_toString_int, hdigits]
  refine .signed _ hc (fun d hd ↦ isNumberPart_digit ?_) hrest h
  exact isDigit_of_mem_toDigits (hdigits ▸ List.mem_cons_of_mem c hd)

theorem Lexes.natural (n : Nat) (hrest : Separated rest) (h : Lexes rest ts) :
    Lexes ((toString n).toList ++ rest) (.number (toString n).toList :: ts) :=
  .int n hrest h

/-- The text of a finite float. -/
theorem Lexes.float {x : Binary32} (hx : x.isFinite = true) (hrest : Separated rest)
    (h : Lexes rest ts) :
    Lexes (x.literal.toList ++ rest) (.number x.literal.toList :: ts) := by
  obtain ⟨whole, fraction, htext, hwhole, hfraction, hne, -⟩ :=
    (x.shortest .upper).exists_pointed
  rw [Binary32.literal, if_pos hx, htext]
  obtain _ | ⟨c, cs⟩ := whole
  · exact absurd rfl hne
  · refine .signed _ (hwhole c List.mem_cons_self) ?_ hrest h
    refine List.forall_mem_append.mpr ⟨fun d hd ↦ ?_, List.forall_mem_cons.mpr ⟨rfl, fun d hd ↦ ?_⟩⟩
    · exact isNumberPart_digit (hwhole d (List.mem_cons_of_mem c hd))
    · exact isNumberPart_digit (hfraction d hd)

/-! ### Words -/

/-- Whether a text is an identifier. -/
def isWord (s : String) : Bool :=
  match s.toList with
  | [] => false
  | c :: cs => isIdentifierStart c && (c :: cs).all isIdentifierContinue

theorem isWord_cases {s : String} (hs : isWord s = true) :
    ∃ c cs, s.toList = c :: cs ∧ isIdentifierStart c = true ∧
      ∀ d ∈ c :: cs, isIdentifierContinue d = true := by
  unfold isWord at hs
  split at hs
  · cases hs
  · next c cs heq =>
    rw [Bool.and_eq_true, List.all_eq_true] at hs
    exact ⟨c, cs, heq, hs⟩

/-- What follows the first character of a word is no quote and no hash sign. -/
theorem head?_word (hcs : ∀ d ∈ cs, isIdentifierContinue d = true) (hrest : Separated rest)
    {d : Char} (hd : d ∈ (cs ++ rest).head?) : d ∉ ['"', '\'', '#'] := by
  cases cs with
  | nil =>
    exact notMem_of_class (p := fun d ↦ d ∈ separators) (by decide) (decide_eq_true (hrest d hd))
  | cons c cs =>
    obtain rfl := Option.some.inj hd
    exact notMem_of_class (by decide) (hcs c List.mem_cons_self)

theorem isIdentifierStart_digit (hc : c.isDigit = true) : isIdentifierStart c = false := by
  have hbounds := digit_bounds hc
  have hunderscore : c ≠ '_' := digit_ne hc '_' rfl
  have hfirst : ∃ more, identifierStartRanges = 0x41 :: more := ⟨_, rfl⟩
  obtain ⟨more, hmore⟩ := hfirst
  rw [isIdentifierStart, hmore, inRanges, if_pos (by omega), decide_eq_false hunderscore,
    Bool.false_or]

theorem isNumberStart_of_isIdentifierStart (hc : isIdentifierStart c = true) :
    isNumberStart c = false := by
  have hdigit : c.isDigit = false := by
    by_contra hd
    rw [isIdentifierStart_digit (Bool.eq_true_of_not_eq_false hd)] at hc
    cases hc
  have hothers : c ∉ ['+', '-', '.'] := notMem_of_class (by decide) hc
  simp only [List.mem_cons, List.not_mem_nil, or_false, not_or] at hothers
  simp [isNumberStart, hdigit, hothers]

theorem readToken_word (hstart : isIdentifierStart c = true)
    (hcs : ∀ d ∈ c :: cs, isIdentifierContinue d = true) (hrest : Separated rest) :
    readToken (c :: cs ++ rest) = some (.name ⟨String.ofList (c :: cs), false⟩, rest) := by
  have hmark : isMark c = false := decide_eq_false (notMem_of_class (by decide) hstart)
  have hnumber : isNumberStart c = false := isNumberStart_of_isIdentifierStart hstart
  have hquote : c ∉ ['"', '\''] := notMem_of_class (by decide) hstart
  have hidentifier : readIdentifier (c :: cs ++ rest) =
      (.name ⟨String.ofList (c :: cs), false⟩, rest) := by
    rw [readIdentifier, takeWhile_separated (fun d hd ↦ (separators_apart d hd).1) hcs hrest]
    simp
  -- No quote and no hash sign follows a marker that could be the start of the word.
  obtain ⟨hc, hcs'⟩ := List.forall_mem_cons.mp hcs
  have hsecond : ∀ d more, cs ++ rest = d :: more → d ∉ ['"', '\'', '#'] := fun d more heq ↦
    head?_word hcs' hrest (by rw [heq]; rfl)
  have hthird : ∀ d more, cs ++ rest = 'r' :: d :: more → d ∉ ['"', '\'', '#'] := by
    intro d more heq
    obtain _ | ⟨r, cs⟩ := cs
    · have hmem := hrest 'r' (by rw [show rest = _ from heq]; rfl)
      exact absurd hmem (by decide)
    · obtain ⟨-, htail⟩ := List.cons.inj heq
      exact head?_word (List.forall_mem_cons.mp hcs').2 hrest
        (by rw [show cs ++ rest = _ from htail]; rfl)
  rw [List.cons_append] at hidentifier ⊢
  unfold readToken
  split
  case h_11 heq =>
    obtain ⟨rfl, rfl⟩ := List.cons.inj heq
    simp only [hmark, hnumber, hstart, hidentifier, Bool.false_eq_true, if_true, if_false]
  case h_12 heq => cases heq
  case h_1 heq | h_2 heq =>
    obtain ⟨rfl, -⟩ := List.cons.inj heq
    exact absurd (by decide) hquote
  case h_5 heq | h_6 heq =>
    exact absurd (by decide) (hthird _ _ (List.cons.inj heq).2)
  all_goals
    next heq => exact absurd (by decide) (hsecond _ _ (List.cons.inj heq).2)

theorem Lexes.word {s : String} (hs : isWord s = true) (hrest : Separated rest)
    (h : Lexes rest ts) : Lexes (s.toList ++ rest) (.name ⟨s, false⟩ :: ts) := by
  obtain ⟨c, cs, heq, hstart, hcs⟩ := isWord_cases hs
  have hread := readToken_word hstart hcs hrest
  rw [← heq, String.ofList_toList] at hread
  have hblank : isBlank c = false := decide_eq_false (notMem_of_class (by decide +kernel) hstart)
  have hslash : c ∉ ['/'] := notMem_of_class (by decide) hstart
  rw [heq, List.cons_append] at hread ⊢
  exact .token hblank (List.ne_of_not_mem_cons hslash) hread (by simp) h

/-- A word with a mark that keeps it from being taken for a value. -/
theorem Lexes.rawWord {s : String} (hs : isWord s = true) (hrest : Separated rest)
    (h : Lexes rest ts) : Lexes (("r#" ++ s).toList ++ rest) (.name ⟨s, true⟩ :: ts) := by
  obtain ⟨c, cs, heq, hstart, hcs⟩ := isWord_cases hs
  have hpart : ∀ d ∈ c :: cs, isRawPart d = true := fun d hd ↦ by simp [isRawPart, hcs d hd]
  have hread : readRawIdentifier (c :: cs ++ rest) =
      some (.name ⟨String.ofList (c :: cs), true⟩, rest) := by
    rw [readRawIdentifier,
      takeWhile_separated (fun d hd ↦ (separators_apart d hd).2.2) hpart hrest]
    simp
  have hmark : readToken ('r' :: '#' :: (c :: cs ++ rest)) = readRawIdentifier (c :: cs ++ rest) := by
    have hquote : c ∉ ['"', '#'] := notMem_of_class (by decide) hstart
    simp only [List.mem_cons, List.not_mem_nil, or_false, not_or] at hquote
    rw [readToken]
    · simp [hquote]
    · simp [hquote]
  rw [← heq, String.ofList_toList] at hread
  rw [String.toList_append, heq, List.append_assoc]
  change Lexes ('r' :: '#' :: (c :: cs ++ rest)) _
  refine .token rfl (by decide) (hmark.trans (heq ▸ hread)) ?_ h
  simp only [List.cons_append, List.length_cons, List.length_append]
  omega

end ShaderGraph.Ron
