import ShaderGraph.Proofs.Ron.Printer
import ShaderGraph.Ron.Term

/-!
# Terms of printed data

The tokens of a datum are read as one term, with as many steps as the tokens allow for. A name alone
is a term unless parentheses follow, and an item is no field unless a colon follows.
-/

namespace ShaderGraph.Ron

/-- Fields in parentheses; without any they are read as no items. -/
def fieldsTerm (name? : Option Identifier) (fields : List (Identifier × Term)) : Term :=
  if fields.isEmpty then .group name? [] else .fields name? fields

mutual

/-- The term that the tokens of a datum are read as. -/
def termOf (names : Bool) : Datum → Term
  | .unit => .group none []
  | .bool b => .name ⟨if b then "true" else "false", false⟩
  | .byte x => .number (toString x.toNat).toList
  | .word x => .number (toString x.toNat).toList
  | .integer x => .number (toString x.toInt).toList
  | .float x => .number (floatText x).toList
  | .text s => .text s
  | .absent => .name ⟨"None", false⟩
  | .present d => .group (some ⟨"Some", false⟩) [termOf names d]
  | .list items => .list (itemTerms names items)
  | .map entries => .map (entryTerms names entries)
  | .tuple items => .group none (itemTerms names items)
  | .wrapper name d => .group (typeName? names name) [termOf names d]
  | .record name fields => fieldsTerm (typeName? names name) (fieldTerms names fields)
  | .variant _ name .unit => .name (caseIdentifier name)
  | .variant _ name (.record _ fields) =>
    fieldsTerm (some (caseIdentifier name)) (fieldTerms names fields)
  | .variant _ name payload => .group (some (caseIdentifier name)) [termOf names payload]
termination_by structural d => d

def itemTerms (names : Bool) : List Datum → List Term
  | [] => []
  | d :: ds => termOf names d :: itemTerms names ds
termination_by structural ds => ds

def fieldTerms (names : Bool) : List (String × Datum) → List (Identifier × Term)
  | [] => []
  | (name, d) :: fields => (⟨name, false⟩, termOf names d) :: fieldTerms names fields
termination_by structural fields => fields

def entryTerms (names : Bool) : List (Datum × Datum) → List (Term × Term)
  | [] => []
  | (key, d) :: entries => (termOf names key, termOf names d) :: entryTerms names entries
termination_by structural entries => entries

end

section Parts

variable {names : Bool}

theorem itemTerms_eq_map (ds : List Datum) : itemTerms names ds = ds.map (termOf names) := by
  induction ds with
  | nil => rfl
  | cons d ds ih => rw [itemTerms, ih, List.map_cons]

theorem fieldTerms_eq_map (fields : List (String × Datum)) :
    fieldTerms names fields = fields.map fun f ↦ (⟨f.1, false⟩, termOf names f.2) := by
  induction fields with
  | nil => rfl
  | cons f fields ih => rw [fieldTerms, ih, List.map_cons]

theorem entryTerms_eq_map (entries : List (Datum × Datum)) :
    entryTerms names entries = entries.map fun e ↦ (termOf names e.1, termOf names e.2) := by
  induction entries with
  | nil => rfl
  | cons e entries ih => rw [entryTerms, ih, List.map_cons]

end Parts

/-! ## Tokens and their terms -/

/-- The first token opens a term that is no field. -/
def opensTerm : List Token → Bool
  | .name _ :: .mark ':' :: _ => false
  | .mark c :: _ => c ∈ ['(', '[', '{']
  | _ :: _ => true
  | [] => false

/-- The tokens are read as the term wherever no parentheses follow. -/
structure Parses (ts : List Token) (t : Term) : Prop where
  opens : opensTerm ts = true
  reads : ∀ ⦃rest : List Token⦄ ⦃limit : Nat⦄, rest.head? ≠ some (.mark '(') →
    3 * ts.length ≤ limit → readTerm limit (ts ++ rest) = some (t, rest)

theorem head?_of_opensTerm {ts : List Token} (h : opensTerm ts = true) {c : Char}
    (hc : c ∉ ['(', '[', '{']) (rest : List Token) : (ts ++ rest).head? ≠ some (.mark c) := by
  cases ts with
  | nil => cases h
  | cons t ts =>
    rintro heq
    obtain rfl := Option.some.inj heq
    exact hc (of_decide_eq_true h)

/-! ## Sequences -/

section Sequences

variable {α ι : Type} {items : List ι} {tokens : ι → List Token} {item : ι → α} {close : Char}
  {read : Nat → List Token → Option (List α × List Token)} {rest : List Token} {limit : Nat}

theorem afterItem_close (a : α) (more : List Token → Option (List α × List Token)) :
    afterItem close a more (.mark close :: rest) = some ([a], rest) := by
  rw [afterItem, if_pos rfl]

theorem afterItem_comma (hclose : close ≠ ',') (a : α)
    (more : List Token → Option (List α × List Token)) :
    afterItem close a more (.mark ',' :: rest) = (more rest).map fun p ↦ (a :: p.1, p.2) := by
  rw [afterItem, if_neg (Ne.symm hclose), if_pos rfl]

/-- A reader of sequences, by what it does with one item and with the end. -/
structure Sequences (read : Nat → List Token → Option (List α × List Token)) (close : Char)
    (items : List ι) (tokens : ι → List Token) (item : ι → α) : Prop where
  mark : close ≠ ',' ∧ close ≠ '('
  stop : ∀ limit rest, read (limit + 1) (.mark close :: rest) = some ([], rest)
  step : ∀ i ∈ items, ∀ limit rest, 3 * (tokens i).length ≤ limit →
    rest.head? ≠ some (.mark '(') →
    read (limit + 1) (tokens i ++ rest) = afterItem close (item i) (read limit) rest

/-- Items that are each followed by a comma. -/
theorem Sequences.terminated (h : Sequences read close items tokens item)
    (hlimit : 3 * ((items.map tokens).flatMap (· ++ [Token.mark ','])).length + 1 ≤ limit) :
    read limit ((items.map tokens).flatMap (· ++ [Token.mark ',']) ++ Token.mark close :: rest) =
      some (items.map item, rest) := by
  obtain ⟨⟨hcomma, hopen⟩, hstop, hstep⟩ := h
  induction items generalizing limit with
  | nil =>
    obtain ⟨limit, rfl⟩ := Nat.exists_eq_succ_of_ne_zero (Nat.zero_lt_of_lt hlimit).ne'
    exact hstop limit rest
  | cons i items ih =>
    obtain ⟨limit, rfl⟩ := Nat.exists_eq_succ_of_ne_zero (Nat.zero_lt_of_lt hlimit).ne'
    obtain ⟨hi, hitems⟩ := List.forall_mem_cons.mp hstep
    simp only [List.map_cons, List.flatMap_cons, List.length_append, List.length_cons,
      List.append_assoc, List.cons_append, List.nil_append] at hlimit ⊢
    rw [hi limit _ (by omega) (by simp), afterItem_comma hcomma, ih (by omega) hitems]
    rfl

/-- Items with commas between them. -/
theorem Sequences.separated (h : Sequences read close items tokens item)
    (hlimit : 3 * ([.mark ','].intercalate (items.map tokens)).length + 1 ≤ limit) :
    read limit ([Token.mark ','].intercalate (items.map tokens) ++ Token.mark close :: rest) =
      some (items.map item, rest) := by
  obtain ⟨⟨hcomma, hopen⟩, hstop, hstep⟩ := h
  induction items generalizing limit with
  | nil =>
    obtain ⟨limit, rfl⟩ := Nat.exists_eq_succ_of_ne_zero (Nat.zero_lt_of_lt hlimit).ne'
    exact hstop limit rest
  | cons i items ih =>
    obtain ⟨limit, rfl⟩ := Nat.exists_eq_succ_of_ne_zero (Nat.zero_lt_of_lt hlimit).ne'
    obtain ⟨hi, hitems⟩ := List.forall_mem_cons.mp hstep
    cases items with
    | nil =>
      simp only [List.map_cons, List.map_nil, List.intercalate_singleton] at hlimit ⊢
      rw [hi limit _ (by omega) (by simpa using hopen), afterItem_close]
    | cons j items =>
      simp only [List.map_cons, List.intercalate_cons_cons, List.length_append, List.length_cons,
        List.append_assoc, List.cons_append, List.nil_append] at hlimit ih ⊢
      rw [hi limit _ (by omega) (by simp), afterItem_comma hcomma, ih (by omega) hitems]
      rfl

end Sequences

section Readers

variable {ι : Type} {items : List ι} {tokens : ι → List Token} {term : ι → Term}

theorem sequences_items (h : ∀ i ∈ items, Parses (tokens i) (term i)) (close : Char)
    (hclose : close ∈ [')', ']', '}']) :
    Sequences (fun limit ↦ readItems limit close) close items tokens term := by
  have hapart : ∀ c ∈ [')', ']', '}'], (c ≠ ',' ∧ c ≠ '(') ∧ c ∉ ['(', '[', '{'] := by simp
  refine ⟨(hapart close hclose).1, ?_, ?_⟩
  · intro limit rest
    simp [readItems]
  · intro i hi limit rest hlimit hrest
    have hhead := head?_of_opensTerm (h i hi).opens (hapart close hclose).2 rest
    simp only [readItems, if_neg hhead, (h i hi).reads hrest hlimit]
    rfl

theorem sequences_fields (name : ι → String) (h : ∀ i ∈ items, Parses (tokens i) (term i)) :
    Sequences readFields ')' items
      (fun i ↦ .name ⟨name i, false⟩ :: .mark ':' :: tokens i)
      (fun i ↦ (⟨name i, false⟩, term i)) := by
  refine ⟨by decide, ?_, ?_⟩
  · intro limit rest
    rw [readFields]
  · intro i hi limit rest hlimit hrest
    simp only [List.length_cons] at hlimit
    rw [List.cons_append, List.cons_append, readFields, (h i hi).reads hrest (by omega)]
    rfl

theorem sequences_entries {keyTokens : ι → List Token} {key : ι → Term}
    (hkeys : ∀ i ∈ items, Parses (keyTokens i) (key i))
    (hvalues : ∀ i ∈ items, Parses (tokens i) (term i)) :
    Sequences readEntries '}' items (fun i ↦ keyTokens i ++ Token.mark ':' :: tokens i)
      (fun i ↦ (key i, term i)) := by
  refine ⟨by decide, ?_, ?_⟩
  · intro limit rest
    rw [readEntries]
  · intro i hi limit rest hlimit hrest
    simp only [List.length_append, List.length_cons] at hlimit
    have hhead := head?_of_opensTerm (hkeys i hi).opens (c := '}') (by decide)
      (.mark ':' :: (tokens i ++ rest))
    have hkey : readTerm limit (keyTokens i ++ Token.mark ':' :: (tokens i ++ rest)) =
        some (key i, .mark ':' :: (tokens i ++ rest)) := (hkeys i hi).reads (by simp) (by omega)
    rw [List.append_assoc, List.cons_append, readEntries]
    · rw [hkey]
      simp only [Option.bind_eq_bind, Option.bind_some]
      rw [(hvalues i hi).reads hrest (by omega)]
      rfl
    · rintro ts heq
      rw [heq] at hhead
      exact hhead rfl

end Readers

/-! ## Forms of terms -/

section Forms

variable {ts : List Token} {t : Term} {name? : Option Identifier}

theorem Parses.name (id : Identifier) : Parses [.name id] (.name id) := by
  refine ⟨rfl, fun rest limit hrest hlimit ↦ ?_⟩
  obtain ⟨limit, rfl⟩ := Nat.exists_eq_succ_of_ne_zero (Nat.zero_lt_of_lt hlimit).ne'
  rw [List.singleton_append, readTerm]
  rintro ts rfl
  exact hrest rfl

theorem Parses.number (text : List Char) : Parses [.number text] (.number text) := by
  refine ⟨rfl, fun rest limit _ hlimit ↦ ?_⟩
  obtain ⟨limit, rfl⟩ := Nat.exists_eq_succ_of_ne_zero (Nat.zero_lt_of_lt hlimit).ne'
  rfl

theorem Parses.text (s : String) : Parses [.text s] (.text s) := by
  refine ⟨rfl, fun rest limit _ hlimit ↦ ?_⟩
  obtain ⟨limit, rfl⟩ := Nat.exists_eq_succ_of_ne_zero (Nat.zero_lt_of_lt hlimit).ne'
  rfl

/-- Parentheses after a name, or without one. -/
theorem readTerm_parentheses (limit : Nat) (name? : Option Identifier) (ts : List Token) :
    readTerm (limit + 1) ((name?.map Token.name).toList ++ Token.mark '(' :: ts) =
      readParentheses limit name? ts := by
  cases name? <;> rfl

theorem Parses.parentheses {inner : List Token}
    (h : ∀ ⦃rest : List Token⦄ ⦃limit : Nat⦄, 3 * inner.length + 4 ≤ limit →
      readParentheses (limit + 1) name? (inner ++ Token.mark ')' :: rest) = some (t, rest)) :
    Parses ((name?.map Token.name).toList ++ Token.mark '(' :: (inner ++ [Token.mark ')'])) t := by
  refine ⟨by cases name? <;> rfl, fun rest limit _ hlimit ↦ ?_⟩
  simp only [List.length_append, List.length_cons, List.length_nil] at hlimit
  obtain ⟨limit, rfl⟩ : ∃ k, limit = k + 2 := ⟨limit - 2, by omega⟩
  rw [List.append_assoc, List.cons_append, List.append_assoc, readTerm_parentheses]
  exact h (by omega)

/-- What starts with a term is no field unless a colon follows the term. -/
theorem ne_field_of_opensTerm {ts rest : List Token} (h : opensTerm ts = true)
    (hrest : rest.head? ≠ some (.mark ':')) (id : Identifier) (more : List Token) :
    ts ++ rest ≠ .name id :: .mark ':' :: more := by
  intro heq
  obtain _ | ⟨t, _ | ⟨u, ts⟩⟩ := ts
  · cases h
  · obtain ⟨-, rfl⟩ := List.cons.inj heq
    exact hrest rfl
  · obtain ⟨rfl, htail⟩ := List.cons.inj heq
    obtain ⟨rfl, -⟩ := List.cons.inj htail
    cases h

theorem readParentheses_items {limit : Nat} {ts : List Token}
    (h : ∀ id more, ts ≠ .name id :: .mark ':' :: more) :
    readParentheses (limit + 1) name? ts =
      (readItems limit ')' ts).map fun p ↦ (.group name? p.1, p.2) := by
  rw [readParentheses]
  exact h

section Items

variable {ι : Type} {items : List ι} {tokens : ι → List Token} {term : ι → Term}

theorem Parses.group (h : ∀ i ∈ items, Parses (tokens i) (term i)) (name? : Option Identifier) :
    Parses ((name?.map Token.name).toList ++
      Token.mark '(' :: ([Token.mark ','].intercalate (items.map tokens) ++ [Token.mark ')']))
      (.group name? (items.map term)) := by
  refine .parentheses fun rest limit hlimit ↦ ?_
  have hitems : ∀ id more, [Token.mark ','].intercalate (items.map tokens) ++ Token.mark ')' :: rest ≠
      .name id :: .mark ':' :: more := by
    intro id more
    cases items with
    | nil => exact nofun
    | cons i items =>
      have hopens := (h i List.mem_cons_self).opens
      cases items with
      | nil =>
        rw [List.map_cons, List.map_nil, List.intercalate_singleton]
        exact ne_field_of_opensTerm hopens (by simp) id more
      | cons j items =>
        rw [List.map_cons, List.map_cons, List.intercalate_cons_cons, List.append_assoc,
          List.append_assoc]
        exact ne_field_of_opensTerm hopens (by simp) id more
  rw [readParentheses_items hitems]
  rw [(sequences_items h ')' (by decide)).separated (by omega)]
  rfl

theorem Parses.list (h : ∀ i ∈ items, Parses (tokens i) (term i)) :
    Parses (blockTokens '[' ']' (items.map tokens)) (.list (items.map term)) := by
  refine ⟨rfl, fun rest limit _ hlimit ↦ ?_⟩
  simp only [blockTokens, List.length_append, List.length_cons, List.length_nil] at hlimit
  obtain ⟨limit, rfl⟩ : ∃ k, limit = k + 1 := ⟨limit - 1, by omega⟩
  rw [blockTokens, List.cons_append, List.append_assoc, readTerm]
  erw [(sequences_items h ']' (by decide)).terminated (by omega)]
  rfl

theorem Parses.map {keyTokens : ι → List Token} {key : ι → Term}
    (hkeys : ∀ i ∈ items, Parses (keyTokens i) (key i))
    (hvalues : ∀ i ∈ items, Parses (tokens i) (term i)) :
    Parses (blockTokens '{' '}' (items.map fun i ↦ keyTokens i ++ Token.mark ':' :: tokens i))
      (.map (items.map fun i ↦ (key i, term i))) := by
  refine ⟨rfl, fun rest limit _ hlimit ↦ ?_⟩
  simp only [blockTokens, List.length_append, List.length_cons, List.length_nil] at hlimit
  obtain ⟨limit, rfl⟩ : ∃ k, limit = k + 1 := ⟨limit - 1, by omega⟩
  rw [blockTokens, List.cons_append, List.append_assoc, readTerm]
  erw [(sequences_entries hkeys hvalues).terminated (by omega)]
  rfl

theorem Parses.fields {name : ι → String} (h : ∀ i ∈ items, Parses (tokens i) (term i))
    (name? : Option Identifier) :
    Parses ((name?.map Token.name).toList ++
      blockTokens '(' ')' (items.map fun i ↦ .name ⟨name i, false⟩ :: .mark ':' :: tokens i))
      (fieldsTerm name? (items.map fun i ↦ (⟨name i, false⟩, term i))) := by
  refine .parentheses fun rest limit hlimit ↦ ?_
  have hread : readFields limit
      ((items.map fun i ↦ .name ⟨name i, false⟩ :: .mark ':' :: tokens i).flatMap
        (· ++ [Token.mark ',']) ++ Token.mark ')' :: rest) =
      some (items.map fun i ↦ (⟨name i, false⟩, term i), rest) :=
    (sequences_fields name h).terminated (by omega)
  cases items with
  | nil =>
    rw [readParentheses_items (by simp)]
    obtain ⟨limit, rfl⟩ : ∃ k, limit = k + 1 := ⟨limit - 1, by omega⟩
    simp [readItems, fieldsTerm]
  | cons i items =>
    simp only [List.map_cons, List.flatMap_cons, List.cons_append] at hread ⊢
    rw [readParentheses, hread]
    rfl

end Items

theorem Parses.single (h : Parses ts t) (name? : Option Identifier) :
    Parses ((name?.map Token.name).toList ++ Token.mark '(' :: (ts ++ [Token.mark ')']))
      (.group name? [t]) := by
  have hitems : ∀ i ∈ [()], Parses ts t := fun _ _ ↦ h
  have hgroup := Parses.group hitems name?
  rwa [List.map_singleton, List.map_singleton, List.intercalate_singleton] at hgroup

end Forms

/-! ## Data -/

variable {names : Bool} {schema : Schema} {d : Datum}

theorem termOf_single {index : Nat} {name : String} (hd : d.isSingle = true) :
    termOf names (.variant index name d) =
      .group (some (caseIdentifier name)) [termOf names d] := by
  cases d <;> first | rfl | cases hd

/-- The tokens of a datum that fits a schema are read as the term of the datum. -/
theorem Parses.datum (h : schema.Admits .document d) (names : Bool) :
    Parses (tokensOf names d) (termOf names d) := by
  induction h with
  | bool b => exact .name _
  | byte x => exact .number _
  | word x => exact .number _
  | integer x => exact .number _
  | float hx => exact .number _
  | text _ => exact .text _
  | absent _ => exact .name _
  | present _ _ ih => exact .single ih (some ⟨"Some", false⟩)
  | list _ _ ih =>
    rw [tokensOf, termOf, itemTokens_eq_map, itemTerms_eq_map]
    exact .list ih
  | map _ _ _ _ ihkeys ihvalues =>
    rw [tokensOf, termOf, entryTokens_eq_map, entryTerms_eq_map]
    exact .map ihkeys ihvalues
  | tuple _ ih =>
    rw [tokensOf, termOf, itemTokens_eq_map, itemTerms_eq_map, List.map_map, List.map_map]
    exact .group ih none
  | wrapper _ _ ih => exact .single ih _
  | record _ _ _ ih =>
    rw [tokensOf, termOf, fieldTokens_eq_map, fieldTerms_eq_map, List.map_map, List.map_map]
    exact .fields ih _
  | constant _ => exact .name _
  | fields _ _ _ ih =>
    rw [tokensOf, termOf, fieldTokens_eq_map, fieldTerms_eq_map, List.map_map, List.map_map]
    exact .fields ih (some (caseIdentifier _))
  | single _ hsingle hd ih =>
    rw [tokensOf_single (hd.isSingle.trans hsingle), termOf_single (hd.isSingle.trans hsingle)]
    exact .single ih (some (caseIdentifier _))

end ShaderGraph.Ron
