import ShaderGraph.Proofs.Data.Lists
import ShaderGraph.Proofs.Ron.Term
import ShaderGraph.Ron.Interpretation

/-!
# Written data are read back

The term of a datum that fits a schema is interpreted as that datum, so reading the text of a datum
gives the datum.
-/

namespace ShaderGraph.Ron

/-! ## Integers -/

theorem contains_byte (x : UInt8) : IntegerType.byte.contains x.toNat = true := by
  have hx := x.toNat_lt
  rw [IntegerType.contains, Bool.and_eq_true, decide_eq_true_eq, decide_eq_true_eq]
  change (0 : Int) ≤ x.toNat ∧ (x.toNat : Int) ≤ 255
  omega

theorem contains_word (x : UInt32) : IntegerType.word.contains x.toNat = true := by
  have hx := x.toNat_lt
  rw [IntegerType.contains, Bool.and_eq_true, decide_eq_true_eq, decide_eq_true_eq]
  change (0 : Int) ≤ x.toNat ∧ (x.toNat : Int) ≤ 4294967295
  omega

theorem contains_integer (x : Int32) : IntegerType.integer.contains x.toInt = true := by
  have hlow := x.le_toInt
  have hhigh := x.toInt_lt
  rw [IntegerType.contains, Bool.and_eq_true, decide_eq_true_eq, decide_eq_true_eq]
  change -2147483648 ≤ x.toInt ∧ x.toInt ≤ 2147483647
  omega

/-! ## Sequences -/

variable {ι : Type} {items : List ι} {schema : ι → Schema} {term : ι → Term} {datum : ι → Datum}
  {limit : Nat}

theorem interpretItems_map
    (h : ∀ i ∈ items, interpret {} (schema i) limit (term i) = some (datum i)) :
    interpretItems {} (items.map schema) limit (items.map term) = some (items.map datum) := by
  induction items with
  | nil => rfl
  | cons i items ih =>
    obtain ⟨hi, hitems⟩ := List.forall_mem_cons.mp h
    simp [interpretItems, hi, ih hitems]

/-! ## Fields -/

variable {name : ι → String}

theorem termFields?_fieldsTerm (name? : Option Identifier) (fields : List (Identifier × Term)) :
    termFields? (fieldsTerm name? fields) = some (name?, fields) := by
  cases fields <;> rfl

theorem areDistinct_of_nodup {names : List String} (h : names.Nodup) : areDistinct names = true := by
  induction names with
  | nil => rfl
  | cons name names ih =>
    obtain ⟨hname, hnames⟩ := List.nodup_cons.mp h
    simp [areDistinct, hname, ih hnames]

theorem areFields_map (hnames : (items.map name).Nodup) (limit : Nat) :
    areFields (items.map name) limit (items.map fun i ↦ (⟨name i, false⟩, term i)) = true := by
  have htexts : (items.map fun i ↦ ((⟨name i, false⟩, term i) : Identifier × Term)).map
      (·.1.text) = items.map name := by
    rw [List.map_map]
    rfl
  have hknown : (items.map name).filter (· ∈ items.map name) = items.map name :=
    List.filter_eq_self.mpr fun n hn ↦ decide_eq_true hn
  have hothers : (items.map fun i ↦ ((⟨name i, false⟩, term i) : Identifier × Term)).filter
      (fun item ↦ item.1.text ∉ items.map name) = [] := by
    rw [List.filter_eq_nil_iff]
    intro item hitem
    obtain ⟨i, hi, rfl⟩ := List.mem_map.mp hitem
    simpa using ⟨i, hi, rfl⟩
  rw [areFields, htexts, hknown, hothers, areDistinct_of_nodup hnames]
  rfl

theorem fieldTerm?_map (hnames : (items.map name).Nodup) {i : ι} (hi : i ∈ items) :
    fieldTerm? (name i) (items.map fun i ↦ (⟨name i, false⟩, term i)) = some (term i) := by
  induction items with
  | nil => cases hi
  | cons j items ih =>
    obtain ⟨hj, hitems⟩ := List.nodup_cons.mp hnames
    unfold fieldTerm? at ih ⊢
    rw [List.map_cons, List.find?_cons]
    obtain rfl | hi := List.mem_cons.mp hi
    · simp
    · have hne : name j ≠ name i := fun heq ↦ hj (heq ▸ List.mem_map_of_mem hi)
      simpa [hne] using ih hitems hi

/-- Each field is found under its name. -/
theorem interpretFields_map {defaults : List (String × Datum)} {fields : List (Identifier × Term)}
    (hfind : ∀ i ∈ items, fieldTerm? (name i) fields = some (term i))
    (h : ∀ i ∈ items, interpret {} (schema i) limit (term i) = some (datum i)) :
    interpretFields {} defaults (items.map fun i ↦ (name i, schema i)) limit fields =
      some (items.map fun i ↦ (name i, datum i)) := by
  induction items with
  | nil => rfl
  | cons i items ih =>
    obtain ⟨hi, hitems⟩ := List.forall_mem_cons.mp h
    obtain ⟨hfindi, hfinditems⟩ := List.forall_mem_cons.mp hfind
    simp [interpretFields, hfindi, hi, ih hfinditems hitems]

/-! ## Cases -/

theorem interpretCase_cons (e : Extensions) (wanted : String) (payload : Schema)
    (cases : List (String × Schema)) (k limit : Nat) (t? : Option Term) :
    interpretCase e ((wanted, payload) :: cases) k wanted limit t? =
      interpretCase e [(wanted, payload)] k wanted limit t? := by
  rw [interpretCase, if_neg (not_not.mpr rfl), interpretCase, if_neg (not_not.mpr rfl)]

theorem interpretCase_eq {cases : List (String × Schema)} {index : Nat} {wanted : String}
    {payload : Schema} (h : Schema.HasCase cases index wanted payload) (e : Extensions) (k : Nat)
    (limit : Nat) (t? : Option Term) :
    interpretCase e cases k wanted limit t? =
      interpretCase e [(wanted, payload)] (k + index) wanted limit t? := by
  obtain ⟨hposition, -, hfound, -⟩ := h
  induction cases generalizing k index with
  | nil => cases hfound
  | cons c cases ih =>
    obtain ⟨label, schema⟩ := c
    rw [List.findIdx_cons] at hposition
    rw [List.find?_cons] at hfound
    by_cases hlabel : label = wanted
    · subst hlabel
      simp only [decide_true, cond_true] at hposition
      simp only [decide_true, Option.some.injEq, Prod.mk.injEq, true_and] at hfound
      subst hposition hfound
      exact interpretCase_cons ..
    · simp only [hlabel, decide_false, cond_false] at hposition hfound
      rw [interpretCase, if_pos hlabel, ih (k + 1) rfl hfound, ← hposition, Nat.add_assoc,
        Nat.add_comm 1]

variable {k : Nat} {wanted : String}

theorem interpretCase_unit :
    interpretCase {} [(wanted, .unit)] k wanted limit none = some (.variant k wanted .unit) := by
  rw [interpretCase, if_neg (not_not.mpr rfl)]
  rfl

/-- Fields after the name of a case are those of its record. -/
theorem interpretCase_fields {inner : String} {defaults : List (String × Datum)}
    (hnames : (items.map name).Nodup)
    (h : ∀ i ∈ items, ∀ limit, interpret {} (schema i) limit (term i) = some (datum i)) :
    interpretCase {} [(wanted, .record inner (items.map fun i ↦ (name i, schema i)) defaults)] k
      wanted limit (some (fieldsTerm none (items.map fun i ↦ (⟨name i, false⟩, term i)))) =
      some (.variant k wanted (.record inner (items.map fun i ↦ (name i, datum i)))) := by
  have hknown : (items.map fun i ↦ (name i, schema i)).map Prod.fst = items.map name := by
    rw [List.map_map]
    rfl
  rw [interpretCase, if_neg (not_not.mpr rfl)]
  simp only [termFields?_fieldsTerm, hknown, areFields_map hnames, if_true,
    interpretFields_map (fun i hi ↦ fieldTerm?_map hnames hi) fun i hi ↦ h i hi (limit - 1)]
  rfl

/-- One value in parentheses after the name of a case is its payload. -/
theorem interpretCase_single {inner : Schema} {d : Datum} (names : Bool)
    (hsingle : inner.isSingle = true) (hadmits : inner.Admits .document d)
    (h : ∀ limit, interpret {} inner limit (termOf names d) = some d) :
    interpretCase {} [(wanted, inner)] k wanted limit (some (.group none [termOf names d])) =
      some (.variant k wanted d) := by
  have hinner := h (limit - 1)
  rw [interpretCase, if_neg (not_not.mpr rfl)]
  cases inner with
  | unit => cases hsingle
  | record => cases hsingle
  | tuple schemas =>
    -- The items are read without a detour through the tuple.
    obtain ⟨items, rfl⟩ : ∃ items, d = .tuple items := by
      cases hadmits
      exact ⟨_, rfl⟩
    rw [termOf, interpret, Nat.sub_sub] at hinner
    simp [termOf, hinner]
  | _ => simp [hinner]

/-! ## Data -/

theorem namesType_typeName? (names : Bool) (name : String) :
    namesType {} name (typeName? names name) = true := by
  cases names with
  | true => exact decide_eq_true rfl
  | false => rfl

@[simp]
theorem caseIdentifier_text (name : String) : (caseIdentifier name).text = name :=
  rfl

/-- Fields in parentheses are those of a record, under its name or without one. -/
theorem interpret_record {names : Bool} {inner : String} {defaults : List (String × Datum)}
    (hnames : (items.map name).Nodup)
    (h : ∀ i ∈ items, ∀ limit, interpret {} (schema i) limit (term i) = some (datum i)) :
    interpret {} (.record inner (items.map fun i ↦ (name i, schema i)) defaults) limit
      (fieldsTerm (typeName? names inner) (items.map fun i ↦ (⟨name i, false⟩, term i))) =
      some (.record inner (items.map fun i ↦ (name i, datum i))) := by
  have hknown : (items.map fun i ↦ (name i, schema i)).map Prod.fst = items.map name := by
    rw [List.map_map]
    rfl
  rw [interpret, termFields?_fieldsTerm]
  simp only [namesType_typeName?, hknown, areFields_map hnames, Bool.and_self, if_true,
    interpretFields_map (fun i hi ↦ fieldTerm?_map hnames hi) fun i hi ↦ h i hi (limit - 1)]
  rfl

theorem interpret_choice_fieldsTerm (e : Extensions) (cases : List (String × Schema))
    (id : Identifier) (fields : List (Identifier × Term)) :
    interpret e (.choice cases) limit (fieldsTerm (some id) fields) =
      interpretCase e cases 0 id.text limit (some (fieldsTerm none fields)) := by
  cases fields <;> rfl

/-- The term of a datum that fits a schema is interpreted as the datum. -/
theorem interpret_termOf {schema : Schema} {d : Datum} (h : schema.Admits .document d)
    (names : Bool) (limit : Nat) : interpret {} schema limit (termOf names d) = some d := by
  induction h generalizing limit with
  | bool b => cases b <;> rfl
  | byte x =>
    rw [termOf, interpret, integerOf?_natural (contains_byte x)]
    simp
  | word x =>
    rw [termOf, interpret, integerOf?_natural (contains_word x)]
    simp
  | integer x =>
    rw [termOf, interpret, integerOf?_int (contains_integer x)]
    simp
  | float hx =>
    rw [termOf, interpret, floatText_of_isFinite hx, floatOf?_literal hx]
    rfl
  | text _ => rfl
  | absent _ => rfl
  | present _ _ ih =>
    rw [termOf, interpret, if_pos (by rfl), ih]
    rfl
  | list _ _ ih =>
    rw [termOf, interpret, itemTerms_eq_map, mapM_map_eq_some (k := id) fun d hd ↦ ih d hd _,
      List.map_id]
    rfl
  | map _ _ _ _ ihkeys ihvalues =>
    rw [termOf, interpret, entryTerms_eq_map, mapM_map_eq_some (k := id) fun e he ↦ ?_,
      List.map_id]
    · rfl
    · simp [ihkeys e he, ihvalues e he]
  | tuple _ ih =>
    rw [termOf, interpret, itemTerms_eq_map, List.map_map]
    erw [interpretItems_map fun p hp ↦ ih p hp _]
    rfl
  | wrapper _ _ ih =>
    rw [termOf, interpret, if_neg Bool.false_ne_true]
    simp only [namesType_typeName?, if_true, ih]
    rfl
  | record _ hnames h ih =>
    rw [termOf, fieldTerms_eq_map, List.map_map]
    exact interpret_record hnames.distinct fun f hf limit ↦ ih f hf limit
  | constant hcase =>
    rw [termOf, interpret, caseIdentifier_text, interpretCase_eq hcase,
      Nat.zero_add]
    exact interpretCase_unit
  | fields hcase hnames _ ih =>
    rw [termOf, fieldTerms_eq_map, List.map_map, interpret_choice_fieldsTerm,
      caseIdentifier_text, interpretCase_eq hcase, Nat.zero_add]
    exact interpretCase_fields hnames.distinct fun f hf limit ↦ ih f hf limit
  | single hcase hsingle hd ih =>
    rw [termOf_single (hd.isSingle.trans hsingle), interpret,
      caseIdentifier_text, interpretCase_eq hcase, Nat.zero_add]
    exact interpretCase_single names hsingle hd ih

/-! ## Documents -/

variable {schema : Schema} {d : Datum}

/-- A term is no attribute. -/
theorem readAttributes_of_opensTerm {ts : List Token} (h : opensTerm ts = true) (e : Extensions)
    (limit : Nat) : readAttributes limit e ts = some (e, ts) := by
  have hprefix : attributeOpening.isPrefixOf ts = false := by
    obtain _ | ⟨t, ts⟩ := ts
    · rfl
    · have hmark : (Token.mark '#' == t) = false := by
        rw [beq_eq_false_iff_ne]
        rintro rfl
        cases h
      rw [attributeOpening, List.isPrefixOf, hmark, Bool.false_and]
  cases limit with
  | zero => rfl
  | succ limit => rw [readAttributes, hprefix, if_neg Bool.false_ne_true]

/-- Reading what is written for a datum that fits a schema gives the datum. -/
theorem read?_write (h : schema.Admits .document d) (names : Bool) :
    read? schema (write names d) = some d := by
  have hlexes : Lexes (write names d).toList (tokensOf names d) := by
    have hscans := Scans.print h names 0 separated_nil .nil
    rwa [List.append_nil, List.append_nil] at hscans
  have hparses := Parses.datum h names
  have hterm : readTerm (3 * (tokensOf names d).length + 3) (tokensOf names d ++ []) =
      some (termOf names d, []) := hparses.reads (by simp) (by omega)
  rw [List.append_nil] at hterm
  rw [read?, Document.ofText?, hlexes.tokens?]
  simp only [Option.bind_eq_bind, Option.bind_some, readAttributes_of_opensTerm hparses.opens,
    hterm]
  exact interpret_termOf h names nestingLimit

end ShaderGraph.Ron
