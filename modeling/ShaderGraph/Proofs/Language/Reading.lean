import ShaderGraph.Proofs.Language.Expression
import ShaderGraph.Proofs.Text.Syntax

/-!
# Composed expressions are read as such

What is read at the start of a text does not change if more text follows that does not reach into it.
-/

namespace ShaderGraph

variable {types : List String} {cs rest more : List Char} {e : Expression} {limit : Nat}

/-! ## Tokens -/

/-- More text changes a split only if the split takes all of the text. -/
theorem span_append {p : Char → Bool} (h : cs.dropWhile p = [] → ∀ c ∈ more.head?, p c = false) :
    (cs ++ more).takeWhile p = cs.takeWhile p ∧ (cs ++ more).dropWhile p = cs.dropWhile p ++ more := by
  induction cs with
  | nil =>
    cases more with
    | nil => exact ⟨rfl, rfl⟩
    | cons c more => simp [h rfl c rfl]
  | cons c cs ih =>
    by_cases hc : p c
    · simp only [List.cons_append, List.takeWhile_cons, List.dropWhile_cons, hc, if_true] at h ⊢
      obtain ⟨htake, hdrop⟩ := ih h
      exact ⟨by rw [htake], hdrop⟩
    · simp [hc]

/-- No word reaches across the border in front of the text. -/
def EndsWord (more : List Char) : Prop :=
  ∀ c ∈ more.head?, isWordCharacter c = false

theorem EndsWord.digit (h : EndsWord more) : ∀ c ∈ more.head?, c.isDigit = false := by
  intro c hc
  have hword := h c hc
  simp only [isWordCharacter, Char.isAlphanum, Bool.or_eq_false_iff] at hword
  exact hword.1.2

theorem splitWord_append (h : (splitWord cs).2 = [] → EndsWord more) :
    splitWord (cs ++ more) = ((splitWord cs).1, (splitWord cs).2 ++ more) := by
  obtain ⟨htake, hdrop⟩ := span_append (p := isWordCharacter) h
  rw [splitWord, splitWord, htake, hdrop]

theorem splitNumber_append (h : (splitNumber cs).2 = [] → EndsWord more ∧ more.head? ≠ some '.') :
    splitNumber (cs ++ more) = ((splitNumber cs).1, (splitNumber cs).2 ++ more) := by
  unfold splitNumber splitDigits at h ⊢
  dsimp only at h ⊢
  have hends : cs.dropWhile Char.isDigit = [] → EndsWord more ∧ more.head? ≠ some '.' := by
    intro hnil
    rw [hnil] at h
    exact h rfl
  obtain ⟨htake, hdrop⟩ := span_append (p := Char.isDigit) fun hnil ↦ (hends hnil).1.digit
  rw [htake, hdrop]
  cases hrest : cs.dropWhile Char.isDigit with
  | nil => simp [(hends hrest).2]
  | cons c rest =>
    rw [hrest] at h
    simp only [List.cons_append, List.head?_cons, List.tail_cons, Option.some.injEq] at h ⊢
    by_cases hpoint : c = '.'
    · simp only [hpoint, if_true] at h ⊢
      obtain ⟨htake, hdrop⟩ := span_append (p := Char.isDigit) fun hnil ↦ (h hnil).1.digit
      rw [htake, hdrop]
    · simp only [hpoint, if_false, List.cons_append]

/-- The expression is a number. -/
def Expression.isNumber : Expression → Bool
  | number _ => true
  | _ => false

/-- A text that starts with a word character starts with an atom. -/
theorem head?_of_splitAtom? (h : splitAtom? cs = some (e, rest)) :
    ∃ c, cs.head? = some c ∧ isWordCharacter c = true := by
  unfold splitAtom? at h
  split at h
  · cases h
  · next c hc =>
    refine ⟨c, hc, ?_⟩
    split at h
    · next hdigit => simp [isWordCharacter, Char.isAlphanum, hdigit]
    · split at h
      · next hword => exact hword
      · cases h

theorem splitAtom?_append (h : splitAtom? cs = some (e, rest))
    (hmore : rest = [] → EndsWord more ∧ (e.isNumber → more.head? ≠ some '.')) :
    splitAtom? (cs ++ more) = some (e, rest ++ more) := by
  obtain ⟨c, hc, -⟩ := head?_of_splitAtom? h
  have hhead : (cs ++ more).head? = some c := by
    rw [List.head?_append, hc]
    rfl
  unfold splitAtom? at h ⊢
  rw [hc] at h
  rw [hhead]
  dsimp only at h ⊢
  split_ifs at h ⊢
  · cases h
    rw [splitNumber_append fun hnil ↦ ⟨(hmore hnil).1, (hmore hnil).2 rfl⟩]
  · cases h
    rw [splitWord_append fun hnil ↦ (hmore hnil).1]

theorem length_splitWord (cs : List Char) : (splitWord cs).2.length ≤ cs.length :=
  (List.dropWhile_suffix _).length_le

theorem length_splitNumber (cs : List Char) : (splitNumber cs).2.length ≤ cs.length := by
  have hdigits (cs : List Char) : (splitDigits cs).2.length ≤ cs.length :=
    (List.dropWhile_suffix _).length_le
  unfold splitNumber
  dsimp only
  split
  · have htail := List.length_tail (l := (splitDigits cs).2)
    have hfraction := hdigits (splitDigits cs).2.tail
    have hwhole := hdigits cs
    dsimp only
    omega
  · exact hdigits cs

theorem splitMinus?_eq_some (h : splitMinus? cs = some rest) : cs = '-' :: rest ∧ rest.head? ≠ some '-' := by
  unfold splitMinus? at h
  split at h
  · cases h
  · next hminus =>
    cases h
    refine ⟨rfl, fun hhead ↦ ?_⟩
    obtain ⟨tail, rfl⟩ := List.head?_eq_some_iff.mp hhead
    exact hminus tail rfl
  · cases h

theorem splitConversion?_eq_some {type : String} (h : splitConversion? types cs = some (type, rest)) :
    ∃ word, cs = '(' :: (word ++ ')' :: rest) ∧ (∀ c ∈ word, isWordCharacter c = true) ∧
      type = String.ofList word ∧ type ∈ types := by
  unfold splitConversion? splitWord at h
  dsimp only at h
  split_ifs at h with hopen hclose
  cases h
  obtain ⟨tail, rfl⟩ := List.head?_eq_some_iff.mp hopen
  obtain ⟨after, hafter⟩ := List.head?_eq_some_iff.mp hclose.2
  refine ⟨tail.takeWhile isWordCharacter, ?_, fun c hc ↦ List.mem_takeWhile_imp hc, rfl, hclose.1⟩
  rw [List.tail_cons] at hafter ⊢
  rw [hafter, List.tail_cons, ← hafter, List.takeWhile_append_dropWhile]

theorem length_splitWord_cons {c : Char} (h : isWordCharacter c = true) (cs : List Char) :
    (splitWord (c :: cs)).2.length ≤ cs.length := by
  rw [splitWord, List.dropWhile_cons_of_pos h]
  exact length_splitWord cs

theorem length_splitNumber_cons {c : Char} (h : c.isDigit = true) (cs : List Char) :
    (splitNumber (c :: cs)).2.length ≤ cs.length := by
  have hdigits : (splitDigits (c :: cs)).2 = (splitDigits cs).2 := by
    rw [splitDigits, splitDigits, List.dropWhile_cons_of_pos h]
  have hrest : (splitNumber (c :: cs)).2 = (splitNumber cs).2 := by
    unfold splitNumber
    dsimp only
    rw [hdigits]
    split <;> rfl
  rw [hrest]
  exact length_splitNumber cs

theorem splitAtom?_length (h : splitAtom? cs = some (e, rest)) : rest.length < cs.length := by
  unfold splitAtom? at h
  cases cs with
  | nil => cases h
  | cons c cs =>
    dsimp only [List.head?_cons] at h
    split_ifs at h with hdigit hword
    · cases h
      exact Nat.lt_succ_of_le (length_splitNumber_cons hdigit cs)
    · cases h
      exact Nat.lt_succ_of_le (length_splitWord_cons hword cs)

theorem splitSuffix?_eq_some {suffix : Suffix} (h : splitSuffix? cs = some (suffix, rest)) :
    rest.length < cs.length ∧ ∀ more, (rest = [] → EndsWord more) →
      splitSuffix? (cs ++ more) = some (suffix, rest ++ more) := by
  unfold splitSuffix? at h
  split at h
  · next cs =>
    cases h
    refine ⟨Nat.lt_succ_of_le (length_splitWord cs), fun more hmore ↦ ?_⟩
    rw [List.cons_append, splitSuffix?, splitWord_append hmore]
  · cases h
    exact ⟨Nat.lt_succ_self _, fun more _ ↦ rfl⟩
  · cases h
    exact ⟨Nat.lt_succ_self _, fun more _ ↦ rfl⟩
  · cases h

/-- Nothing that belongs to an expression reaches across the border in front of the text. -/
def EndsExpression (more : List Char) : Prop :=
  EndsWord more ∧ ∀ c ∈ more.head?, c ∉ ['.', '[', '(']

theorem splitSuffix?_eq_none_iff : splitSuffix? cs = none ↔ ∀ c ∈ cs.head?, c ∉ ['.', '[', '('] := by
  unfold splitSuffix?
  split
  · simp
  · simp
  · simp
  · next hpoint hbracket hparenthesis =>
    simp only [true_iff]
    intro c hc
    obtain ⟨tail, rfl⟩ := List.head?_eq_some_iff.mp hc
    simp only [List.mem_cons, List.not_mem_nil, or_false, not_or]
    exact ⟨fun h ↦ hpoint tail (by rw [h]), fun h ↦ hbracket tail (by rw [h]),
      fun h ↦ hparenthesis tail (by rw [h])⟩

/-- A text that starts with no suffix starts with none if more text follows. -/
theorem splitSuffix?_append_of_none (h : splitSuffix? cs = none)
    (hmore : cs = [] → EndsExpression more) : splitSuffix? (cs ++ more) = none := by
  rw [splitSuffix?_eq_none_iff] at h ⊢
  cases cs with
  | nil => exact (hmore rfl).2
  | cons c cs => exact h

theorem splitMinus?_cons (h : rest.head? ≠ some '-') : splitMinus? ('-' :: rest) = some rest := by
  unfold splitMinus?
  split
  · next heq =>
    cases heq
    exact absurd rfl h
  · next heq =>
    cases heq
    rfl
  · next hminus => exact absurd rfl (hminus rest)

theorem splitMinus?_of_head? (h : cs.head? ≠ some '-') : splitMinus? cs = none := by
  unfold splitMinus?
  split
  · rfl
  · exact absurd rfl h
  · rfl

theorem splitConversion?_of_head? (h : cs.head? ≠ some '(') : splitConversion? types cs = none := by
  rw [splitConversion?, if_neg h]

theorem splitConversion?_cons {word : List Char} (hword : ∀ c ∈ word, isWordCharacter c = true)
    (htype : String.ofList word ∈ types) :
    splitConversion? types ('(' :: (word ++ ')' :: rest)) = some (String.ofList word, rest) := by
  have hclose : isWordCharacter ')' = false := rfl
  have hsplit : splitWord (word ++ ')' :: rest) = (String.ofList word, ')' :: rest) := by
    rw [splitWord, List.takeWhile_append_of_pos hword, List.dropWhile_append_of_pos hword,
      List.takeWhile_cons_of_neg (by simp [hclose]), List.dropWhile_cons_of_neg (by simp [hclose]),
      List.append_nil]
  rw [splitConversion?, List.head?_cons, if_pos rfl, List.tail_cons, hsplit]
  exact if_pos ⟨htype, rfl⟩

/-! ## Expressions -/

/-- An expression is a negation, a conversion, or a primary expression that starts with an atom. -/
theorem readExpression_succ_iff :
    readExpression types (limit + 1) cs = some (e, rest) ↔
      (∃ after f, cs = '-' :: after ∧ after.head? ≠ some '-' ∧
        readExpression types limit after = some (f, rest) ∧ e = .negative f) ∨
      (∃ type after f, splitConversion? types cs = some (type, after) ∧
        readExpression types limit after = some (f, rest) ∧ e = .conversion type f) ∨
      ∃ f after, splitAtom? cs = some (f, after) ∧
        readSuffixes types limit f after = some (e, rest) := by
  rw [readExpression]
  constructor
  · intro h
    split at h
    · next after hminus =>
      obtain ⟨rfl, hhead⟩ := splitMinus?_eq_some hminus
      obtain ⟨⟨f, _⟩, hread, heq⟩ := Option.map_eq_some_iff.mp h
      cases heq
      exact .inl ⟨after, f, rfl, hhead, hread, rfl⟩
    · next type after _ hconversion =>
      obtain ⟨⟨f, _⟩, hread, heq⟩ := Option.map_eq_some_iff.mp h
      cases heq
      exact .inr (.inl ⟨type, after, f, hconversion, hread, rfl⟩)
    · next f after _ _ hatom => exact .inr (.inr ⟨f, after, hatom, h⟩)
    · cases h
  · rintro (⟨after, f, rfl, hhead, hread, rfl⟩ | ⟨type, after, f, hconversion, hread, rfl⟩ |
      ⟨f, after, hatom, hread⟩)
    · rw [splitMinus?_cons hhead]
      simp [hread]
    · obtain ⟨word, rfl, -⟩ := splitConversion?_eq_some hconversion
      rw [splitMinus?_of_head? (by simp), hconversion]
      simp [hread]
    · obtain ⟨c, hc, hword⟩ := head?_of_splitAtom? hatom
      have hminus : cs.head? ≠ some '-' := by
        rw [hc]
        rintro ⟨⟩
        cases hword
      have hopen : cs.head? ≠ some '(' := by
        rw [hc]
        rintro ⟨⟩
        cases hword
      rw [splitMinus?_of_head? hminus, splitConversion?_of_head? hopen, hatom]
      exact hread

theorem readSuffixes_succ_iff {f : Expression} :
    readSuffixes types (limit + 1) f cs = some (e, rest) ↔
      (splitSuffix? cs = none ∧ e = f ∧ rest = cs) ∨
      (∃ name after, splitSuffix? cs = some (.field name, after) ∧ name ≠ "" ∧
        readSuffixes types limit (.select f name) after = some (e, rest)) ∨
      (∃ i after after', splitSuffix? cs = some (.index, after) ∧
        readExpression types limit after = some (i, ']' :: after') ∧
        readSuffixes types limit (.element f i) after' = some (e, rest)) ∨
      ∃ args after after', splitSuffix? cs = some (.arguments, after) ∧
        readArguments types limit after = some (args, after') ∧
        readSuffixes types limit (.call f args) after' = some (e, rest) := by
  rw [readSuffixes]
  constructor
  · intro h
    split at h
    · next hsuffix =>
      cases h
      exact .inl ⟨hsuffix, rfl, rfl⟩
    · next name after hsuffix =>
      split_ifs at h with hname
      exact .inr (.inl ⟨name, after, hsuffix, hname, h⟩)
    · next after hsuffix =>
      obtain ⟨⟨i, after'⟩, hindex, h⟩ := Option.bind_eq_some_iff.mp h
      dsimp only at h
      split_ifs at h with hclose
      obtain ⟨tail, rfl⟩ := List.head?_eq_some_iff.mp hclose
      exact .inr (.inr (.inl ⟨i, after, tail, hsuffix, hindex, h⟩))
    · next after hsuffix =>
      obtain ⟨⟨args, after'⟩, hargs, h⟩ := Option.bind_eq_some_iff.mp h
      exact .inr (.inr (.inr ⟨args, after, after', hsuffix, hargs, h⟩))
  · rintro (⟨hsuffix, rfl, rfl⟩ | ⟨name, after, hsuffix, hname, h⟩ |
      ⟨i, after, after', hsuffix, hindex, h⟩ | ⟨args, after, after', hsuffix, hargs, h⟩)
    · rw [hsuffix]
    · rw [hsuffix]
      exact (if_neg hname).trans h
    · rw [hsuffix]
      exact Option.bind_eq_some_iff.mpr ⟨_, hindex, h⟩
    · rw [hsuffix]
      exact Option.bind_eq_some_iff.mpr ⟨_, hargs, h⟩

theorem readArguments_succ_iff {es : List Expression} :
    readArguments types (limit + 1) cs = some (es, rest) ↔
      ∃ f after, readExpression types limit cs = some (f, after) ∧
        ((∃ tail, after = ')' :: tail ∧ es = [f] ∧ rest = tail) ∨
          ∃ tail fs, after = ',' :: tail ∧ es = f :: fs ∧
            readArguments types limit (tail.dropWhile Char.isWhitespace) = some (fs, rest)) := by
  rw [readArguments]
  constructor
  · intro h
    obtain ⟨⟨f, after⟩, hread, h⟩ := Option.bind_eq_some_iff.mp h
    refine ⟨f, after, hread, ?_⟩
    dsimp only at h
    split_ifs at h with hclose hcomma
    · obtain ⟨tail, rfl⟩ := List.head?_eq_some_iff.mp hclose
      cases h
      exact .inl ⟨_, rfl, rfl, rfl⟩
    · obtain ⟨tail, rfl⟩ := List.head?_eq_some_iff.mp hcomma
      obtain ⟨⟨fs, _⟩, hfs, h⟩ := Option.bind_eq_some_iff.mp h
      cases h
      exact .inr ⟨tail, fs, rfl, rfl, hfs⟩
  · rintro ⟨f, after, hread, ⟨tail, rfl, rfl, rfl⟩ | ⟨tail, fs, rfl, rfl, hfs⟩⟩
    · exact Option.bind_eq_some_iff.mpr ⟨_, hread, rfl⟩
    · exact Option.bind_eq_some_iff.mpr ⟨_, hread, Option.bind_eq_some_iff.mpr ⟨_, hfs, rfl⟩⟩

/-! ## More text -/

section Appending

variable (types limit)

/-- An expression that is read takes up some of the text, and it is read as well if more text follows
that does not reach into it. How many steps are allowed for does not matter as long as they suffice. -/
def ExpressionAppends : Prop :=
  ∀ ⦃cs e rest⦄, readExpression types limit cs = some (e, rest) → rest.length < cs.length ∧
    ∀ limit' more, 2 * cs.length < limit' → (rest = [] → EndsExpression more) →
      readExpression types limit' (cs ++ more) = some (e, rest ++ more)

def SuffixesAppend : Prop :=
  ∀ ⦃f cs e rest⦄, readSuffixes types limit f cs = some (e, rest) → rest.length ≤ cs.length ∧
    ∀ limit' more, 2 * cs.length < limit' → (rest = [] → EndsExpression more) →
      readSuffixes types limit' f (cs ++ more) = some (e, rest ++ more)

/-- Arguments end in a parenthesis, so nothing that follows reaches into them. -/
def ArgumentsAppend : Prop :=
  ∀ ⦃cs es rest⦄, readArguments types limit cs = some (es, rest) → rest.length < cs.length ∧
    ∀ limit' more, 2 * cs.length + 1 < limit' →
      readArguments types limit' (cs ++ more) = some (es, rest ++ more)

end Appending

theorem eq_nil_of_length_le {as bs : List Char} (h : as.length ≤ bs.length) (hbs : bs = []) :
    as = [] := by
  subst hbs
  exact List.eq_nil_of_length_eq_zero (Nat.le_zero.mp h)

theorem ExpressionAppends.succ (hexpression : ExpressionAppends types limit)
    (hsuffixes : SuffixesAppend types limit) : ExpressionAppends types (limit + 1) := by
  intro cs e rest h
  obtain ⟨after, f, rfl, hhead, hread, rfl⟩ | ⟨type, after, f, hconversion, hread, rfl⟩ |
    ⟨f, after, hatom, hread⟩ := readExpression_succ_iff.mp h
  · obtain ⟨hlength, happend⟩ := hexpression hread
    refine ⟨Nat.lt_succ_of_lt hlength, fun limit' more hlimit hmore ↦ ?_⟩
    obtain ⟨limit', rfl⟩ := Nat.exists_eq_succ_of_ne_zero (Nat.zero_lt_of_lt hlimit).ne'
    rw [List.length_cons] at hlimit
    refine readExpression_succ_iff.mpr (.inl ⟨after ++ more, f, rfl, ?_,
      happend limit' more (by omega) hmore, rfl⟩)
    rwa [List.head?_append_of_ne_nil _ (List.ne_nil_of_length_pos (Nat.zero_lt_of_lt hlength))]
  · obtain ⟨hlength, happend⟩ := hexpression hread
    obtain ⟨word, rfl, hword, rfl, htype⟩ := splitConversion?_eq_some hconversion
    refine ⟨by simp only [List.length_cons, List.length_append]; omega,
      fun limit' more hlimit hmore ↦ ?_⟩
    obtain ⟨limit', rfl⟩ := Nat.exists_eq_succ_of_ne_zero (Nat.zero_lt_of_lt hlimit).ne'
    simp only [List.length_cons, List.length_append] at hlimit
    refine readExpression_succ_iff.mpr (.inr (.inl ⟨_, after ++ more, f, ?_,
      happend limit' more (by omega) hmore, rfl⟩))
    rw [List.cons_append, List.append_assoc, List.cons_append]
    exact splitConversion?_cons hword htype
  · obtain ⟨hlength, happend⟩ := hsuffixes hread
    have hatomLength := splitAtom?_length hatom
    refine ⟨by omega, fun limit' more hlimit hmore ↦ ?_⟩
    obtain ⟨limit', rfl⟩ := Nat.exists_eq_succ_of_ne_zero (Nat.zero_lt_of_lt hlimit).ne'
    refine readExpression_succ_iff.mpr (.inr (.inr ⟨f, after ++ more, ?_,
      happend limit' more (by omega) hmore⟩))
    refine splitAtom?_append hatom fun hnil ↦ ?_
    have hends := hmore (eq_nil_of_length_le hlength hnil)
    exact ⟨hends.1, fun _ hpoint ↦ hends.2 '.' hpoint (by decide)⟩

theorem SuffixesAppend.succ (hexpression : ExpressionAppends types limit)
    (hsuffixes : SuffixesAppend types limit) (harguments : ArgumentsAppend types limit) :
    SuffixesAppend types (limit + 1) := by
  intro f cs e rest h
  obtain ⟨hsuffix, rfl, rfl⟩ | ⟨name, after, hsuffix, hname, hread⟩ |
    ⟨i, after, after', hsuffix, hindex, hread⟩ | ⟨args, after, after', hsuffix, hargs, hread⟩ :=
    readSuffixes_succ_iff.mp h
  · refine ⟨le_rfl, fun limit' more hlimit hmore ↦ ?_⟩
    obtain ⟨limit', rfl⟩ := Nat.exists_eq_succ_of_ne_zero (Nat.zero_lt_of_lt hlimit).ne'
    exact readSuffixes_succ_iff.mpr (.inl ⟨splitSuffix?_append_of_none hsuffix hmore, rfl, rfl⟩)
  · obtain ⟨hlength, happend⟩ := hsuffixes hread
    obtain ⟨hsuffixLength, hsuffixAppend⟩ := splitSuffix?_eq_some hsuffix
    refine ⟨by omega, fun limit' more hlimit hmore ↦ ?_⟩
    obtain ⟨limit', rfl⟩ := Nat.exists_eq_succ_of_ne_zero (Nat.zero_lt_of_lt hlimit).ne'
    refine readSuffixes_succ_iff.mpr (.inr (.inl ⟨name, after ++ more, hsuffixAppend more ?_, hname,
      happend limit' more (by omega) hmore⟩))
    exact fun hnil ↦ (hmore (eq_nil_of_length_le hlength hnil)).1
  · obtain ⟨hindexLength, hindexAppend⟩ := hexpression hindex
    obtain ⟨hlength, happend⟩ := hsuffixes hread
    obtain ⟨hsuffixLength, hsuffixAppend⟩ := splitSuffix?_eq_some hsuffix
    rw [List.length_cons] at hindexLength
    refine ⟨by omega, fun limit' more hlimit hmore ↦ ?_⟩
    obtain ⟨limit', rfl⟩ := Nat.exists_eq_succ_of_ne_zero (Nat.zero_lt_of_lt hlimit).ne'
    refine readSuffixes_succ_iff.mpr (.inr (.inr (.inl ⟨i, after ++ more, after' ++ more,
      hsuffixAppend more ?_, hindexAppend limit' more (by omega) nofun,
      happend limit' more (by omega) hmore⟩)))
    rintro rfl
    exact absurd hindexLength (Nat.not_lt_zero _)
  · obtain ⟨hargsLength, hargsAppend⟩ := harguments hargs
    obtain ⟨hlength, happend⟩ := hsuffixes hread
    obtain ⟨hsuffixLength, hsuffixAppend⟩ := splitSuffix?_eq_some hsuffix
    refine ⟨by omega, fun limit' more hlimit hmore ↦ ?_⟩
    obtain ⟨limit', rfl⟩ := Nat.exists_eq_succ_of_ne_zero (Nat.zero_lt_of_lt hlimit).ne'
    refine readSuffixes_succ_iff.mpr (.inr (.inr (.inr ⟨args, after ++ more, after' ++ more,
      hsuffixAppend more ?_, hargsAppend limit' more (by omega),
      happend limit' more (by omega) hmore⟩)))
    rintro rfl
    exact absurd hargsLength (Nat.not_lt_zero _)

theorem ArgumentsAppend.succ (hexpression : ExpressionAppends types limit)
    (harguments : ArgumentsAppend types limit) : ArgumentsAppend types (limit + 1) := by
  intro cs es rest h
  obtain ⟨f, after, hread, ⟨tail, rfl, rfl, rfl⟩ | ⟨tail, fs, rfl, rfl, hfs⟩⟩ :=
    readArguments_succ_iff.mp h
  · obtain ⟨hlength, happend⟩ := hexpression hread
    rw [List.length_cons] at hlength
    refine ⟨by omega, fun limit' more hlimit ↦ ?_⟩
    obtain ⟨limit', rfl⟩ := Nat.exists_eq_succ_of_ne_zero (Nat.zero_lt_of_lt hlimit).ne'
    exact readArguments_succ_iff.mpr ⟨f, _, happend limit' more (by omega) nofun,
      .inl ⟨_, rfl, rfl, rfl⟩⟩
  · obtain ⟨hlength, happend⟩ := hexpression hread
    obtain ⟨htailLength, htailAppend⟩ := harguments hfs
    have hblank : (tail.dropWhile Char.isWhitespace).length ≤ tail.length :=
      (List.dropWhile_suffix _).length_le
    rw [List.length_cons] at hlength
    refine ⟨by omega, fun limit' more hlimit ↦ ?_⟩
    obtain ⟨limit', rfl⟩ := Nat.exists_eq_succ_of_ne_zero (Nat.zero_lt_of_lt hlimit).ne'
    refine readArguments_succ_iff.mpr ⟨f, _, happend limit' more (by omega) nofun,
      .inr ⟨tail ++ more, fs, rfl, rfl, ?_⟩⟩
    -- Something is left to read after the blanks, so they end before the text does.
    have hends : tail.dropWhile Char.isWhitespace = [] → ∀ c ∈ more.head?, c.isWhitespace = false :=
      fun hnil ↦ by
        rw [hnil] at htailLength
        exact absurd htailLength (Nat.not_lt_zero _)
    obtain ⟨-, hdrop⟩ := span_append hends
    rw [hdrop]
    exact htailAppend limit' more (by omega)

theorem read_append (types : List String) (limit : Nat) :
    ExpressionAppends types limit ∧ SuffixesAppend types limit ∧ ArgumentsAppend types limit := by
  induction limit with
  | zero => exact ⟨nofun, nofun, nofun⟩
  | succ limit ih =>
    obtain ⟨hexpression, hsuffixes, harguments⟩ := ih
    exact ⟨hexpression.succ hsuffixes, .succ hexpression hsuffixes harguments,
      .succ hexpression harguments⟩

/-! ## More suffixes -/

/-- Suffixes that follow the text of a primary expression belong to all of it. -/
theorem readSuffixes_append {f : Expression} {p : Expression × List Char} {least : Nat}
    (hmore : EndsWord more)
    (hread : ∀ limit', least < limit' → readSuffixes types limit' e more = some p)
    (h : readSuffixes types limit f cs = some (e, [])) {limit' : Nat}
    (hlimit : 2 * cs.length + least < limit') : readSuffixes types limit' f (cs ++ more) = some p := by
  induction limit generalizing f cs limit' with
  | zero => cases h
  | succ limit ih =>
    obtain ⟨hsuffix, rfl, rfl⟩ | ⟨name, after, hsuffix, hname, h⟩ |
      ⟨i, after, after', hsuffix, hindex, h⟩ | ⟨args, after, after', hsuffix, hargs, h⟩ :=
      readSuffixes_succ_iff.mp h
    · exact hread limit' (by omega)
    · obtain ⟨hlength, happend⟩ := splitSuffix?_eq_some hsuffix
      obtain ⟨limit', rfl⟩ := Nat.exists_eq_succ_of_ne_zero (Nat.zero_lt_of_lt hlimit).ne'
      exact readSuffixes_succ_iff.mpr (.inr (.inl ⟨name, after ++ more,
        happend more fun _ ↦ hmore, hname, ih h (by omega)⟩))
    · obtain ⟨hlength, happend⟩ := splitSuffix?_eq_some hsuffix
      obtain ⟨hindexLength, hindexAppend⟩ := (read_append types limit).1 hindex
      rw [List.length_cons] at hindexLength
      obtain ⟨limit', rfl⟩ := Nat.exists_eq_succ_of_ne_zero (Nat.zero_lt_of_lt hlimit).ne'
      exact readSuffixes_succ_iff.mpr (.inr (.inr (.inl ⟨i, after ++ more, after' ++ more,
        happend more fun _ ↦ hmore, hindexAppend limit' more (by omega) nofun, ih h (by omega)⟩)))
    · obtain ⟨hlength, happend⟩ := splitSuffix?_eq_some hsuffix
      obtain ⟨hargsLength, hargsAppend⟩ := (read_append types limit).2.2 hargs
      obtain ⟨limit', rfl⟩ := Nat.exists_eq_succ_of_ne_zero (Nat.zero_lt_of_lt hlimit).ne'
      exact readSuffixes_succ_iff.mpr (.inr (.inr (.inr ⟨args, after ++ more, after' ++ more,
        happend more fun _ ↦ hmore, hargsAppend limit' more (by omega), ih h (by omega)⟩)))

theorem readSuffixes_nil {f : Expression} (h : readSuffixes types limit f [] = some (e, rest)) :
    e = f := by
  cases limit with
  | zero => cases h
  | succ limit =>
    obtain ⟨-, rfl, -⟩ | ⟨_, _, hsuffix, -⟩ | ⟨_, _, _, hsuffix, -⟩ | ⟨_, _, _, hsuffix, -⟩ :=
      readSuffixes_succ_iff.mp h
    · rfl
    all_goals cases hsuffix

/-- An expression to which suffixes can be added: a primary one, but for a number, whose last digits
may be taken together with what follows. -/
def Expression.takesSuffixes (e : Expression) : Bool :=
  e.isPrimary && !e.isNumber

theorem readExpression_append {p : Expression × List Char} {least : Nat} (he : e.takesSuffixes)
    (hmore : EndsWord more)
    (hread : ∀ limit', least < limit' → readSuffixes types limit' e more = some p)
    (h : readExpression types limit cs = some (e, [])) {limit' : Nat}
    (hlimit : 2 * cs.length + least < limit') :
    readExpression types limit' (cs ++ more) = some p := by
  cases limit with
  | zero => cases h
  | succ limit =>
    obtain ⟨limit', rfl⟩ := Nat.exists_eq_succ_of_ne_zero (Nat.zero_lt_of_lt hlimit).ne'
    obtain ⟨after, f, rfl, hhead, hf, rfl⟩ | ⟨type, after, f, hconversion, hf, rfl⟩ |
      ⟨f, after, hatom, hf⟩ := readExpression_succ_iff.mp h
    · cases he
    · cases he
    · have hlength := splitAtom?_length hatom
      refine readExpression_succ_iff.mpr (.inr (.inr ⟨f, after ++ more, splitAtom?_append hatom ?_,
        readSuffixes_append hmore hread hf (by omega)⟩))
      rintro rfl
      refine ⟨hmore, fun hnumber ↦ ?_⟩
      cases readSuffixes_nil hf
      simp [Expression.takesSuffixes, hnumber] at he

/-! ## Whole texts -/

theorem endsExpression_nil : EndsExpression [] :=
  ⟨nofun, nofun⟩

variable {text : String}

theorem expression?_eq_some_iff :
    expression? types text = some e ↔
      ∃ limit, readExpression types limit text.toList = some (e, []) := by
  unfold expression?
  constructor
  · intro h
    split at h
    · next hread =>
      cases h
      exact ⟨_, hread⟩
    · cases h
  · rintro ⟨limit, hread⟩
    have happend := ((read_append types limit).1 hread).2 (2 * text.toList.length + 1) []
      (Nat.lt_succ_self _) fun _ ↦ endsExpression_nil
    rw [List.append_nil, List.append_nil] at happend
    rw [happend]

/-- An expression is read in front of a text that does not reach into it. -/
theorem readExpression_of_expression? (h : expression? types text = some e)
    (hmore : EndsExpression more) (hlimit : 2 * text.toList.length < limit) :
    readExpression types limit (text.toList ++ more) = some (e, more) := by
  obtain ⟨least, hread⟩ := expression?_eq_some_iff.mp h
  exact ((read_append types least).1 hread).2 limit more hlimit fun _ ↦ hmore

/-- The first character of an expression is a minus, a parenthesis, or a character of a word. -/
theorem head?_of_readExpression (h : readExpression types limit cs = some (e, rest)) :
    ∃ c, cs.head? = some c ∧ (c = '-' ∨ c = '(' ∨ isWordCharacter c = true) := by
  cases limit with
  | zero => cases h
  | succ limit =>
    obtain ⟨after, f, rfl, -⟩ | ⟨type, after, f, hconversion, -⟩ | ⟨f, after, hatom, -⟩ :=
      readExpression_succ_iff.mp h
    · exact ⟨'-', rfl, .inl rfl⟩
    · obtain ⟨word, rfl, -⟩ := splitConversion?_eq_some hconversion
      exact ⟨'(', rfl, .inr (.inl rfl)⟩
    · obtain ⟨c, hc, hword⟩ := head?_of_splitAtom? hatom
      exact ⟨c, hc, .inr (.inr hword)⟩

/-- Of the expressions only negations start with a minus. -/
theorem head?_ne_minus (h : expression? types text = some e) (hnegative : ∀ f, e ≠ .negative f) :
    text.toList.head? ≠ some '-' := by
  obtain ⟨limit, hread⟩ := expression?_eq_some_iff.mp h
  cases limit with
  | zero => cases hread
  | succ limit =>
    obtain ⟨after, f, -, -, -, rfl⟩ | ⟨type, after, f, hconversion, -⟩ | ⟨f, after, hatom, -⟩ :=
      readExpression_succ_iff.mp hread
    · exact absurd rfl (hnegative f)
    · obtain ⟨word, hword, -⟩ := splitConversion?_eq_some hconversion
      rw [hword]
      simp
    · obtain ⟨c, hc, hword⟩ := head?_of_splitAtom? hatom
      rw [hc]
      rintro ⟨⟩
      cases hword

theorem expression?_negative (h : expression? types text = some e)
    (hminus : text.toList.head? ≠ some '-') : expression? types s!"-{text}" = some (.negative e) := by
  obtain ⟨limit, hread⟩ := expression?_eq_some_iff.mp h
  refine expression?_eq_some_iff.mpr ⟨limit + 1, readExpression_succ_iff.mpr (.inl ⟨_, e, ?_, hminus,
    hread, rfl⟩)⟩
  rw [toString_text, String.toList_append]
  rfl

/-- A second minus makes a decrement, which is no part of an operand. -/
theorem expression?_decrement (h : text.toList.head? = some '-') :
    expression? types s!"-{text}" = none := by
  obtain ⟨tail, htext⟩ := List.head?_eq_some_iff.mp h
  rw [Option.eq_none_iff_forall_ne_some]
  intro e he
  obtain ⟨limit, hread⟩ := expression?_eq_some_iff.mp he
  have hcs : (s!"-{text}").toList = '-' :: '-' :: tail := by
    rw [String.toList_append, toString_text, toString_text, htext]
    rfl
  rw [hcs] at hread
  cases limit with
  | zero => cases hread
  | succ limit =>
    obtain ⟨after, f, heq, hhead, -⟩ | ⟨type, after, f, hconversion, -⟩ | ⟨f, after, hatom, -⟩ :=
      readExpression_succ_iff.mp hread
    · cases heq
      exact hhead rfl
    · obtain ⟨word, heq, -⟩ := splitConversion?_eq_some hconversion
      cases heq
    · obtain ⟨c, hc, hword⟩ := head?_of_splitAtom? hatom
      cases hc
      cases hword

theorem expression?_conversion {type : String} (htype : type ∈ types)
    (hword : ∀ c ∈ type.toList, isWordCharacter c = true) (h : expression? types text = some e) :
    expression? types s!"({type}){text}" = some (.conversion type e) := by
  obtain ⟨limit, hread⟩ := expression?_eq_some_iff.mp h
  refine expression?_eq_some_iff.mpr ⟨limit + 1, readExpression_succ_iff.mpr (.inr (.inl ⟨type,
    text.toList, e, ?_, hread, rfl⟩))⟩
  have htext : (s!"({type}){text}").toList = '(' :: (type.toList ++ ')' :: text.toList) := by
    simp only [toString_text, String.toList_append, List.append_assoc]
    rfl
  have hconversion : splitConversion? types ('(' :: (type.toList ++ ')' :: text.toList)) = _ :=
    splitConversion?_cons hword (by rwa [String.ofList_toList])
  rw [htext, hconversion, String.ofList_toList]

/-- A selection belongs to the expression in front of it. -/
theorem expression?_select {field : String} (h : expression? types text = some e)
    (he : e.takesSuffixes) (hne : field ≠ "") (hword : ∀ c ∈ field.toList, isWordCharacter c = true) :
    expression? types s!"{text}.{field}" = some (.select e field) := by
  obtain ⟨limit, hread⟩ := expression?_eq_some_iff.mp h
  have htext : (s!"{text}.{field}").toList = text.toList ++ '.' :: field.toList := by
    simp only [toString_text, String.toList_append, List.append_assoc]
    rfl
  have hfield : splitWord field.toList = (field, []) := by
    rw [splitWord, List.takeWhile_eq_self_iff.mpr hword, List.dropWhile_eq_nil_iff.mpr hword,
      String.ofList_toList]
  have hsuffix (limit' : Nat) (hlimit : 1 < limit') :
      readSuffixes types limit' e ('.' :: field.toList) = some (.select e field, []) := by
    obtain ⟨limit', rfl⟩ : ∃ k, limit' = k + 2 := ⟨limit' - 2, by omega⟩
    refine readSuffixes_succ_iff.mpr (.inr (.inl ⟨field, [], ?_, hne, rfl⟩))
    rw [splitSuffix?, hfield]
  refine expression?_eq_some_iff.mpr ⟨2 * text.toList.length + 2, ?_⟩
  rw [htext]
  exact readExpression_append he (by simp [EndsWord, isWordCharacter]) hsuffix hread (by omega)

/-- A subscript belongs to the expression in front of it. -/
theorem expression?_element {index : String} {i : Expression} (h : expression? types text = some e)
    (he : e.takesSuffixes) (hindex : expression? types index = some i) :
    expression? types s!"{text}[{index}]" = some (.element e i) := by
  obtain ⟨limit, hread⟩ := expression?_eq_some_iff.mp h
  have htext : (s!"{text}[{index}]").toList = text.toList ++ '[' :: (index.toList ++ [']']) := by
    simp only [toString_text, String.toList_append, List.append_assoc]
    rfl
  have hsuffix (limit' : Nat) (hlimit : 2 * index.toList.length + 1 < limit') :
      readSuffixes types limit' e ('[' :: (index.toList ++ [']'])) = some (.element e i, []) := by
    obtain ⟨limit', rfl⟩ : ∃ k, limit' = k + 2 := ⟨limit' - 2, by omega⟩
    refine readSuffixes_succ_iff.mpr (.inr (.inr (.inl ⟨i, index.toList ++ [']'], [], rfl, ?_, rfl⟩)))
    exact readExpression_of_expression? hindex (by simp [EndsExpression, EndsWord, isWordCharacter])
      (by omega)
  refine expression?_eq_some_iff.mpr
    ⟨2 * text.toList.length + (2 * index.toList.length + 1) + 1, ?_⟩
  rw [htext]
  exact readExpression_append he (by simp [EndsWord, isWordCharacter]) hsuffix hread (by omega)

theorem exists_intercalate_eq_append (l : List Char) (ls : List (List Char)) :
    ∃ tail, [',', ' '].intercalate (l :: ls) = l ++ tail := by
  cases ls with
  | nil => exact ⟨[], by simp⟩
  | cons l' ls => exact ⟨_, by rw [List.intercalate_cons_cons, List.append_assoc]⟩

/-- The blank in front of an expression is all that is skipped. -/
theorem dropWhile_blank (h : expression? types text = some e) (more : List Char) :
    (' ' :: (text.toList ++ more)).dropWhile Char.isWhitespace = text.toList ++ more := by
  obtain ⟨limit, hread⟩ := expression?_eq_some_iff.mp h
  obtain ⟨c, hc, hcases⟩ := head?_of_readExpression hread
  obtain ⟨tail, htail⟩ := List.head?_eq_some_iff.mp hc
  have hvisible : c.isWhitespace = false := by
    by_contra hspace
    simp only [Char.isWhitespace, Bool.not_eq_false, Bool.or_eq_true, decide_eq_true_eq] at hspace
    obtain ((rfl | rfl) | rfl) | rfl := hspace <;> revert hcases <;> decide
  rw [htail, List.dropWhile_cons_of_pos (by decide), List.cons_append,
    List.dropWhile_cons_of_neg (by simp [hvisible])]

/-- Arguments with commas between them are read one by one. -/
theorem readArguments_intercalate {texts : List String} {es : List Expression}
    (h : List.Forall₂ (fun text e ↦ expression? types text = some e) texts es) (hne : texts ≠ [])
    (hlimit : 2 * ([',', ' '].intercalate (texts.map String.toList)).length + 1 < limit) :
    readArguments types limit ([',', ' '].intercalate (texts.map String.toList) ++ ')' :: rest) =
      some (es, rest) := by
  induction h generalizing limit with
  | nil => exact absurd rfl hne
  | @cons text e texts es htext htexts ih =>
    obtain ⟨limit, rfl⟩ := Nat.exists_eq_succ_of_ne_zero (Nat.zero_lt_of_lt hlimit).ne'
    cases htexts with
    | nil =>
      rw [List.map_singleton, List.intercalate_singleton] at hlimit ⊢
      refine readArguments_succ_iff.mpr ⟨e, ')' :: rest, ?_, .inl ⟨rest, rfl, rfl, rfl⟩⟩
      exact readExpression_of_expression? htext (by simp [EndsExpression, EndsWord, isWordCharacter])
        (by omega)
    | @cons text' e' texts es htext' htexts =>
      have hlist : [',', ' '].intercalate (List.map String.toList (text :: text' :: texts)) =
          text.toList ++ ',' :: ' ' :: [',', ' '].intercalate (List.map String.toList (text' :: texts)) := by
        rw [List.map_cons, List.map_cons, List.intercalate_cons_cons, ← List.map_cons,
          List.append_assoc]
        rfl
      have hblank : List.dropWhile Char.isWhitespace
          (' ' :: ([',', ' '].intercalate (List.map String.toList (text' :: texts)) ++ ')' :: rest)) =
          [',', ' '].intercalate (List.map String.toList (text' :: texts)) ++ ')' :: rest := by
        obtain ⟨tail, htail⟩ := exists_intercalate_eq_append text'.toList (texts.map String.toList)
        rw [List.map_cons, htail, List.append_assoc]
        exact dropWhile_blank htext' _
      rw [hlist] at hlimit ⊢
      simp only [List.length_append, List.length_cons] at hlimit
      rw [List.append_assoc, List.cons_append, List.cons_append]
      refine readArguments_succ_iff.mpr ⟨e, _, readExpression_of_expression? htext ?_ (by omega),
        .inr ⟨_, e' :: es, rfl, rfl, ?_⟩⟩
      · simp [EndsExpression, EndsWord, isWordCharacter]
      · rw [hblank]
        exact ih (List.cons_ne_nil _ _) (by omega)

/-- A call belongs to the expression in front of it. -/
theorem expression?_call {texts : List String} {es : List Expression}
    (h : expression? types text = some e) (he : e.takesSuffixes)
    (hargs : List.Forall₂ (fun text e ↦ expression? types text = some e) texts es) (hne : texts ≠ [])
    {list : String} (hlist : list = ", ".intercalate texts) :
    expression? types s!"{text}({list})" = some (.call e es) := by
  obtain ⟨limit, hread⟩ := expression?_eq_some_iff.mp h
  have htext : (s!"{text}({list})").toList =
      text.toList ++ '(' :: ([',', ' '].intercalate (texts.map String.toList) ++ [')']) := by
    simp only [hlist, toString_text, String.toList_append, String.toList_intercalate,
      List.append_assoc]
    rfl
  have hsuffix (limit' : Nat)
      (hlimit : 2 * ([',', ' '].intercalate (texts.map String.toList)).length + 2 < limit') :
      readSuffixes types limit' e
        ('(' :: ([',', ' '].intercalate (texts.map String.toList) ++ [')'])) =
        some (.call e es, []) := by
    obtain ⟨limit', rfl⟩ : ∃ k, limit' = k + 2 := ⟨limit' - 2, by omega⟩
    refine readSuffixes_succ_iff.mpr (.inr (.inr (.inr ⟨es, _, [], rfl, ?_, rfl⟩)))
    exact readArguments_intercalate hargs hne (by omega)
  refine expression?_eq_some_iff.mpr ⟨2 * text.toList.length +
    (2 * ([',', ' '].intercalate (texts.map String.toList)).length + 2) + 1, ?_⟩
  rw [htext]
  exact readExpression_append he (by simp [EndsWord, isWordCharacter]) hsuffix hread (by omega)

end ShaderGraph
