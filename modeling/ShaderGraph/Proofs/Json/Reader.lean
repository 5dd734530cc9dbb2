import Mathlib.Data.List.DropRight
import ShaderGraph.Json.Printer
import ShaderGraph.Json.Quoted
import ShaderGraph.Json.Reader
import ShaderGraph.Proofs.Json.Number
import ShaderGraph.Proofs.Text.Hex

/-!
# Printed JSON values are read back

The text of a value is read as that value wherever a value ends, with as many steps as the text has
characters, twice. Line breaks and indentation leave no trace.
-/

namespace ShaderGraph.Json

/-! ## Quoted strings

Every character is read back from what is written for it: a short escape, an escape by four digits or
the character itself.
-/

section

variable {limit : Nat} {c : Char} {cs rest more left : List Char}

/-! ### Steps of the reader -/

theorem readString_quote (limit : Nat) (rest : List Char) :
    readString (limit + 1) ('"' :: rest) = some ([], rest) := by
  rw [readString]

theorem readString_plain (hquote : c ≠ '"') (hbackslash : c ≠ '\\') (hcontrol : ¬ c.toNat < 32)
    (h : readString limit cs = some (more, left)) :
    readString (limit + 1) (c :: cs) = some (c :: more, left) := by
  rw [readString]
  · simp [hcontrol, h]
  · exact hquote
  · exact hbackslash

theorem readString_escape (hescape : readEscape cs = some (c, rest))
    (h : readString limit rest = some (more, left)) :
    readString (limit + 1) ('\\' :: cs) = some (c :: more, left) := by
  rw [readString]
  simp [hescape, h]

/-! ### Escapes -/

theorem readEscape_short {letter : Char} (hletter : letter ≠ 'u')
    (h : ofShortEscape? letter = some c) (rest : List Char) :
    readEscape (letter :: rest) = some (c, rest) := by
  rw [readEscape]
  · rw [h]
    rfl
  · rintro a b c d cs rfl
    exact absurd rfl hletter

/-- A control character is no surrogate. -/
theorem readEscape_digits (hcontrol : c.toNat < 32) (rest : List Char) :
    readEscape ('u' :: (hexDigits 4 c.toNat ++ rest)) = some (c, rest) := by
  obtain ⟨a, b, d, e, hdigits⟩ : ∃ a b d e, hexDigits 4 c.toNat = [a, b, d, e] :=
    ⟨_, _, _, _, rfl⟩
  have hvalue : ofHexDigits? [a, b, d, e] = some c.toNat := by
    rw [← hdigits]
    exact ofHexDigits?_hexDigits (by omega)
  have hhigh : isHighSurrogate c.toNat = false := by
    simp [isHighSurrogate]
    omega
  have hlow : isLowSurrogate c.toNat = false := by
    simp [isLowSurrogate]
    omega
  rw [hdigits]
  simp [readEscape, hvalue, hhigh, hlow]

theorem readString_escapeChar (h : readString limit rest = some (more, left)) :
    readString (limit + 1) (escapeChar c ++ rest) = some (c :: more, left) := by
  unfold escapeChar
  split_ifs with hself hbackspace hfeed hline hreturn htab hcontrol
  · refine readString_escape (readEscape_short ?_ ?_ rest) h
    · rintro rfl
      simp at hself
    · rw [ofShortEscape?, if_pos (by tauto)]
  · subst hbackspace
    exact readString_escape (readEscape_short (by decide) rfl rest) h
  · subst hfeed
    exact readString_escape (readEscape_short (by decide) rfl rest) h
  · subst hline
    exact readString_escape (readEscape_short (by decide) rfl rest) h
  · subst hreturn
    exact readString_escape (readEscape_short (by decide) rfl rest) h
  · subst htab
    exact readString_escape (readEscape_short (by decide) rfl rest) h
  · exact readString_escape (readEscape_digits hcontrol rest) h
  · rw [not_or] at hself
    exact readString_plain hself.1 hself.2 hcontrol h

/-- Reading a quoted string gives the string and what follows it. -/
theorem readString_quoted (cs rest : List Char) (hlimit : cs.length < limit) :
    readString limit (cs.flatMap escapeChar ++ '"' :: rest) = some (cs, rest) := by
  induction cs generalizing limit with
  | nil =>
    obtain ⟨limit, rfl⟩ := Nat.exists_eq_succ_of_ne_zero hlimit.ne'
    exact readString_quote limit rest
  | cons c cs ih =>
    obtain ⟨limit, rfl⟩ := Nat.exists_eq_succ_of_ne_zero (Nat.zero_lt_of_lt hlimit).ne'
    rw [List.flatMap_cons, List.append_assoc]
    exact readString_escapeChar (ih (Nat.lt_of_succ_lt_succ hlimit))

/-- No character is left out. -/
theorem length_le_escaped (cs : List Char) : cs.length ≤ (cs.flatMap escapeChar).length := by
  induction cs with
  | nil => rfl
  | cons c cs ih =>
    have hc : 0 < (escapeChar c).length := by
      unfold escapeChar
      split_ifs <;> simp
    rw [List.flatMap_cons, List.length_append, List.length_cons]
    omega

theorem toList_quote (s : String) :
    (quote s).toList = '"' :: (s.toList.flatMap escapeChar ++ ['"']) := by
  rw [quote, String.toList_ofList]

/-- A quoted string is read with as many steps as the text that is left allows for. -/
theorem readString_quote_append (s : String) (rest : List Char) :
    ∃ cs, (quote s).toList ++ rest = '"' :: cs ∧
      readString (cs.length + 1) cs = some (s.toList, rest) := by
  refine ⟨s.toList.flatMap escapeChar ++ '"' :: rest, ?_, readString_quoted _ _ ?_⟩
  · rw [toList_quote, List.cons_append, List.append_assoc, List.singleton_append]
  · have hlength := length_le_escaped s.toList
    rw [List.length_append]
    omega

end

/-! ## Values -/

variable {cs cs' rest : List Char} {c : Char} {limit level : Nat} {text : String} {v : Value}

/-! ### Blanks -/

theorem skipBlanks_cons (hc : isBlank c = false) (cs : List Char) : skipBlanks (c :: cs) = c :: cs := by
  rw [skipBlanks, List.dropWhile_cons_of_neg (by simp [hc])]

theorem skipBlanks_append {bs : List Char} (hbs : ∀ c ∈ bs, isBlank c = true) (cs : List Char) :
    skipBlanks (bs ++ cs) = skipBlanks cs :=
  List.dropWhile_append_of_pos hbs

theorem isBlank_lineStart (level : Nat) : ∀ c ∈ (lineStart level).toList, isBlank c = true := by
  intro c hc
  rw [lineStart, String.toList_append] at hc
  obtain hc | hc := List.mem_append.mp hc
  · obtain rfl : c = '\n' := by simpa using hc
    rfl
  · rw [String.toList_ofList] at hc
    rw [List.eq_of_mem_replicate hc]
    rfl

theorem skipBlanks_lineStart (level : Nat) (cs : List Char) :
    skipBlanks ((lineStart level).toList ++ cs) = skipBlanks cs :=
  skipBlanks_append (isBlank_lineStart level) cs

theorem skipBlanks_idem (cs : List Char) : skipBlanks (skipBlanks cs) = skipBlanks cs :=
  List.dropWhile_idempotent isBlank cs

theorem ends_lineStart (level : Nat) (cs : List Char) : Ends ((lineStart level).toList ++ cs) := by
  rw [lineStart, String.toList_append, List.append_assoc]
  exact ends_cons (.inr rfl) _

theorem readValue_congr (h : skipBlanks cs = skipBlanks cs') :
    readValue limit cs = readValue limit cs' := by
  cases limit with
  | zero => rfl
  | succ limit => rw [readValue, readValue, h]

/-! ### Texts and their values -/

/-- The text is neither blank nor the end of a list. -/
def opensValue : List Char → Bool
  | c :: _ => !isBlank c && c ≠ ']' && c ≠ '}'
  | [] => false

/-- The text is read as the value wherever a value ends. -/
structure Reads (text : String) (v : Value) : Prop where
  opens : opensValue text.toList = true
  reads : ∀ ⦃rest : List Char⦄ ⦃limit : Nat⦄, Ends rest → 2 * text.toList.length ≤ limit →
    readValue limit (text.toList ++ rest) = some (v, rest)

theorem skipBlanks_opens (h : opensValue cs = true) (rest : List Char) :
    skipBlanks (cs ++ rest) = cs ++ rest := by
  cases cs with
  | nil => cases h
  | cons c cs =>
    simp only [opensValue, Bool.and_eq_true, Bool.not_eq_true'] at h
    exact skipBlanks_cons h.1.1 _

/-- Texts that are read in one step. -/
theorem Reads.ofStep (hopens : opensValue text.toList = true)
    (h : ∀ ⦃rest : List Char⦄ (limit : Nat), Ends rest →
      readValue (limit + 1) (text.toList ++ rest) = some (v, rest)) : Reads text v := by
  refine ⟨hopens, fun rest limit hrest hlimit ↦ ?_⟩
  have hlength : 0 < text.toList.length := by
    rw [List.length_pos_iff]
    intro htext
    rw [htext] at hopens
    cases hopens
  obtain ⟨limit, rfl⟩ : ∃ k, limit = k + 1 := ⟨limit - 1, by omega⟩
  exact h limit hrest

theorem reads_null : Reads "null" .null :=
  .ofStep (by decide) fun _ _ _ ↦ rfl

theorem reads_bool (b : Bool) : Reads (if b then "true" else "false") (.bool b) := by
  cases b <;> exact .ofStep (by decide) fun _ _ _ ↦ rfl

theorem reads_quote (s : String) : Reads (quote s) (.string s) := by
  refine .ofStep (by simp [toList_quote, opensValue, isBlank]) fun rest limit _ ↦ ?_
  obtain ⟨cs, hcs, hread⟩ := readString_quote_append s rest
  rw [hcs, readValue, skipBlanks_cons rfl]
  simp [hread]

theorem readValue_number (hc : c.isDigit = true ∨ c = '-') (limit : Nat) (cs : List Char) :
    readValue (limit + 1) (c :: cs) = (readNumber (c :: cs)).map fun p ↦ (.number p.1, p.2) := by
  have hne : ∀ other : Char, other.isDigit = false → other ≠ '-' → c ≠ other := by
    rintro other hdigit hminus rfl
    obtain hc | hc := hc
    · exact Bool.false_ne_true (hdigit.symm.trans hc)
    · exact hminus hc
  have hblank : isBlank c = false := by
    simp [isBlank, hne ' ' rfl (by decide), hne '\t' rfl (by decide), hne '\n' rfl (by decide),
      hne '\r' rfl (by decide)]
  rw [readValue, skipBlanks_cons hblank]
  split
  · next heq => exact absurd (List.cons.inj heq).1 (hne 'n' rfl (by decide))
  · next heq => exact absurd (List.cons.inj heq).1 (hne 't' rfl (by decide))
  · next heq => exact absurd (List.cons.inj heq).1 (hne 'f' rfl (by decide))
  · next heq => exact absurd (List.cons.inj heq).1 (hne '"' rfl (by decide))
  · next heq => exact absurd (List.cons.inj heq).1 (hne '[' rfl (by decide))
  · next heq => exact absurd (List.cons.inj heq).1 (hne '{' rfl (by decide))
  · rfl

theorem ReadsNumber.reads {n : Numeral} (h : ReadsNumber text n) : Reads text (.number n) := by
  have hends : Ends [] := fun c hc ↦ absurd hc (by simp)
  have hread := h hends
  rw [List.append_nil] at hread
  obtain ⟨c, more, htext, hc⟩ := exists_of_readNumber hread
  refine .ofStep ?_ fun rest limit hrest ↦ ?_
  · rw [htext, opensValue]
    obtain hc | rfl := hc
    · simp [isBlank, digit_ne hc ' ' rfl, digit_ne hc '\t' rfl, digit_ne hc '\n' rfl,
        digit_ne hc '\r' rfl, digit_ne hc ']' rfl, digit_ne hc '}' rfl]
    · decide
  · have hnumber := h hrest
    rw [htext, List.cons_append] at hnumber ⊢
    rw [readValue_number hc, hnumber]
    rfl

/-! ### Sequences -/

section Sequences

variable {α ι : Type} {items : List ι} {close : Char}
  {read : Nat → List Char → Option (List α × List Char)} {entry : ι → String} {item : ι → α}

theorem afterItem_close (hclose : isBlank close = false) (a : α)
    (more : List Char → Option (List α × List Char)) (rest : List Char) :
    afterItem close a more (close :: rest) = some ([a], rest) := by
  rw [afterItem, skipBlanks_cons hclose]
  simp

theorem afterItem_comma (hclose : close ≠ ',') (a : α)
    (more : List Char → Option (List α × List Char)) (rest : List Char) :
    afterItem close a more (',' :: rest) = (more rest).map fun p ↦ (a :: p.1, p.2) := by
  rw [afterItem, skipBlanks_cons rfl]
  simp [Ne.symm hclose]

theorem afterItem_congr (h : skipBlanks cs = skipBlanks cs') (a : α)
    (more : List Char → Option (List α × List Char)) :
    afterItem close a more cs = afterItem close a more cs' := by
  rw [afterItem, afterItem, h]

/-- A reader of sequences, by what it does with one entry. -/
structure Sequences (read : Nat → List Char → Option (List α × List Char)) (close : Char)
    (items : List ι) (entry : ι → String) (item : ι → α) : Prop where
  mark : close ≠ ',' ∧ isBlank close = false
  congr : ∀ limit cs cs', skipBlanks cs = skipBlanks cs' → read limit cs = read limit cs'
  step : ∀ i ∈ items, ∀ limit rest, Ends rest → 2 * (entry i).toList.length ≤ limit →
    read (limit + 1) ((entry i).toList ++ rest) = afterItem close (item i) (read limit) rest

/-- Entries on lines of their own, with commas between them. -/
theorem Sequences.lines (h : Sequences read close items entry item) (hne : items ≠ [])
    (inner outer : Nat)
    (hlimit : 2 * (("," ++ lineStart inner).intercalate (items.map entry)).toList.length + 1 ≤ limit) :
    read limit ((lineStart inner).toList ++
      ((("," ++ lineStart inner).intercalate (items.map entry)).toList ++
        ((lineStart outer).toList ++ close :: rest))) = some (items.map item, rest) := by
  obtain ⟨⟨hcomma, hblank⟩, hcongr, hstep⟩ := h
  induction items generalizing limit with
  | nil => exact absurd rfl hne
  | cons i items ih =>
    obtain ⟨limit, rfl⟩ := Nat.exists_eq_succ_of_ne_zero (Nat.zero_lt_of_lt hlimit).ne'
    obtain ⟨hi, hitems⟩ := List.forall_mem_cons.mp hstep
    rw [hcongr _ _ _ (skipBlanks_lineStart inner _)]
    cases items with
    | nil =>
      rw [List.map_singleton, String.intercalate_singleton] at hlimit ⊢
      rw [hi limit _ (ends_lineStart outer _) (by omega),
        afterItem_congr (skipBlanks_lineStart outer _), afterItem_close hblank]
      rfl
    | cons j items =>
      have hcommas : ",".toList = [','] := by decide
      simp only [List.map_cons, String.intercalate_cons_cons, String.toList_append, hcommas,
        List.length_append, List.length_cons, List.append_assoc, List.cons_append,
        List.nil_append] at hlimit ih ⊢
      rw [hi limit _ (ends_cons (.inl rfl) _) (by omega), afterItem_comma hcomma,
        ih (List.cons_ne_nil _ _) (by omega) hitems]
      rfl

theorem opensValue_append (h : opensValue cs = true) (more : List Char) :
    opensValue (cs ++ more) = true := by
  cases cs with
  | nil => cases h
  | cons c cs => exact h

theorem opensValue_intercalate (hne : items ≠ [])
    (h : ∀ i ∈ items, opensValue (entry i).toList = true) (separator : String) :
    opensValue (separator.intercalate (items.map entry)).toList = true := by
  obtain ⟨i, items, rfl⟩ := List.exists_cons_of_ne_nil hne
  have hi := h i List.mem_cons_self
  cases items with
  | nil => simpa using hi
  | cons j items =>
    rw [List.map_cons, List.map_cons, String.intercalate_cons_cons, String.append_assoc,
      String.toList_append]
    exact opensValue_append hi _

/-- A block is read if the reader of its entries and its brackets are. -/
theorem Sequences.block (h : Sequences read close items entry item) {o : Char}
    {wrap : List α → Value} (hopens : ∀ i ∈ items, opensValue (entry i).toList = true)
    (ho : opensValue [o] = true)
    (hempty : ∀ limit rest, readValue (limit + 1) (o :: close :: rest) = some (wrap [], rest))
    (hread : ∀ limit cs, opensValue (skipBlanks cs) = true →
      readValue (limit + 1) (o :: cs) = (read limit cs).map fun p ↦ (wrap p.1, p.2))
    {opening closing : String} (hopening : opening.toList = [o]) (hclosing : closing.toList = [close])
    (level : Nat) :
    Reads (Json.block opening closing level (items.map entry)) (wrap (items.map item)) := by
  unfold Json.block
  cases items with
  | nil =>
    rw [List.map_nil, List.isEmpty_nil, if_pos rfl]
    refine .ofStep ?_ fun rest limit _ ↦ ?_
    · rw [String.toList_append, hopening]
      exact opensValue_append ho _
    · rw [String.toList_append, hopening, hclosing]
      exact hempty limit rest
  | cons i items =>
    have hne : i :: items ≠ [] := List.cons_ne_nil _ _
    rw [List.map_cons, List.isEmpty_cons, if_neg Bool.false_ne_true, ← List.map_cons]
    constructor
    · simp only [String.toList_append, hopening, List.append_assoc]
      exact opensValue_append ho _
    · intro rest limit _ hlimit
      simp only [String.toList_append, hopening, hclosing, List.append_assoc, List.length_append,
        List.length_cons, List.length_nil, List.cons_append, List.nil_append] at hlimit ⊢
      obtain ⟨limit, rfl⟩ : ∃ k, limit = k + 1 := ⟨limit - 1, by omega⟩
      rw [hread, h.lines hne _ _ (by omega)]
      · rfl
      · have hbody := opensValue_intercalate hne hopens ("," ++ lineStart (level + 1))
        rw [skipBlanks_lineStart, skipBlanks_opens hbody]
        exact opensValue_append hbody _

end Sequences

section Readers

variable {ι : Type} {items : List ι} {entry : ι → String} {value : ι → Value}

theorem readItems_congr (h : skipBlanks cs = skipBlanks cs') :
    readItems limit cs = readItems limit cs' := by
  cases limit with
  | zero => rfl
  | succ limit => rw [readItems, readItems, readValue_congr h]

theorem readMembers_congr (h : skipBlanks cs = skipBlanks cs') :
    readMembers limit cs = readMembers limit cs' := by
  cases limit with
  | zero => rfl
  | succ limit => rw [readMembers, readMembers, h]

theorem readValue_list (limit : Nat) (h : opensValue (skipBlanks cs) = true) :
    readValue (limit + 1) ('[' :: cs) = (readItems limit cs).map fun p ↦ (.array p.1, p.2) := by
  have hskip : skipBlanks ('[' :: cs) = '[' :: cs := skipBlanks_cons rfl cs
  rw [readItems_congr (skipBlanks_idem cs).symm]
  simp only [readValue, hskip]
  split
  · next heq =>
    rw [heq] at h
    cases h
  · rfl

theorem readValue_object (limit : Nat) (h : opensValue (skipBlanks cs) = true) :
    readValue (limit + 1) ('{' :: cs) = (readMembers limit cs).map fun p ↦ (.object p.1, p.2) := by
  have hskip : skipBlanks ('{' :: cs) = '{' :: cs := skipBlanks_cons rfl cs
  rw [readMembers_congr (skipBlanks_idem cs).symm]
  simp only [readValue, hskip]
  split
  · next heq =>
    rw [heq] at h
    cases h
  · rfl

theorem sequences_items (h : ∀ i ∈ items, Reads (entry i) (value i)) :
    Sequences readItems ']' items entry value := by
  refine ⟨by decide, fun _ _ _ ↦ readItems_congr, fun i hi limit rest hrest hlimit ↦ ?_⟩
  rw [readItems, (h i hi).reads hrest hlimit]
  rfl

theorem reads_list (h : ∀ i ∈ items, Reads (entry i) (value i)) (level : Nat) :
    Reads (block "[" "]" level (items.map entry)) (.array (items.map value)) :=
  (sequences_items h).block (fun i hi ↦ (h i hi).opens) (by decide) (fun _ _ ↦ rfl)
    (fun limit _ ↦ readValue_list limit) (by decide) (by decide) level

/-- The text of a member. -/
def memberText (name text : String) : String :=
  quote name ++ ": " ++ text

theorem sequences_members (name : ι → String) (h : ∀ i ∈ items, Reads (entry i) (value i)) :
    Sequences readMembers '}' items (fun i ↦ memberText (name i) (entry i))
      (fun i ↦ (name i, value i)) := by
  refine ⟨by decide, fun _ _ _ ↦ readMembers_congr, fun i hi limit rest hrest hlimit ↦ ?_⟩
  have hcolon : ": ".toList = [':', ' '] := by decide
  simp only [memberText, String.toList_append, hcolon, List.length_append, List.length_cons,
    List.append_assoc, List.cons_append, List.nil_append] at hlimit ⊢
  have hvalue : readValue limit (' ' :: ((entry i).toList ++ rest)) = some (value i, rest) := by
    have hspace : skipBlanks (' ' :: ((entry i).toList ++ rest)) =
        skipBlanks ((entry i).toList ++ rest) := rfl
    rw [readValue_congr hspace]
    exact (h i hi).reads hrest (by omega)
  obtain ⟨cs, hcs, hread⟩ :=
    readString_quote_append (name i) (':' :: ' ' :: ((entry i).toList ++ rest))
  rw [hcs, readMembers, skipBlanks_cons rfl]
  simp [hread, skipBlanks_cons (c := ':') rfl, hvalue]

theorem reads_object (name : ι → String) (h : ∀ i ∈ items, Reads (entry i) (value i)) (level : Nat) :
    Reads (block "\x7b" "\x7d" level (items.map fun i ↦ memberText (name i) (entry i)))
      (.object (items.map fun i ↦ (name i, value i))) := by
  have hopens : ∀ i ∈ items, opensValue (memberText (name i) (entry i)).toList = true := by
    intro i _
    simp [memberText, toList_quote, opensValue, isBlank]
  exact (sequences_members name h).block hopens (by decide) (fun _ _ ↦ rfl)
    (fun limit _ ↦ readValue_object limit) (by decide) (by decide) level

theorem reads_singleton (h : Reads text v) (level : Nat) (name : String) :
    Reads (singleton level name text) (.object [(name, v)]) := by
  have hvalues : ∀ i ∈ [()], Reads text v := fun _ _ ↦ h
  exact reads_object (fun _ ↦ name) hvalues level

end Readers

end ShaderGraph.Json
