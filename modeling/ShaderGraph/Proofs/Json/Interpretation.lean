import ShaderGraph.Json.Interpretation
import ShaderGraph.Proofs.Data.Lists
import ShaderGraph.Proofs.Json.Reader
import ShaderGraph.Proofs.Storage.Schema

/-!
# Data written as JSON are read back

The text of a datum that fits a schema is read as a value, and the value is interpreted as the datum, if
floats are what the numbers in their texts are rounded to.
-/

namespace ShaderGraph

/-- Whether some value is written as `null`. -/
def Schema.isNullable : Schema → Bool
  | .unit | .optional _ => true
  | .wrapper _ inner => inner.isNullable
  | _ => false

namespace Json

variable {float? : Numeral → Option Binary32}

/-- JSON can hold the floats to which the numbers in their texts are rounded, and optional values that
are not written as `null`. Maps are left out. -/
def limits (float? : Numeral → Option Binary32) : Limits where
  float x := x.isFinite = true ∧ ∀ n, ReadsNumber (floatText x) n → float? n = some x
  size _ := True
  optional schema := schema.isNullable = false
  key _ := False

/-! ## Integers -/

theorem integerIn?_int {least greatest k : Int} (hleast : least ≤ k) (hgreatest : k ≤ greatest) :
    integerIn? least greatest ⟨⟨decide (k < 0), k.natAbs, 0⟩, true⟩ = some k := by
  have hzero : 0 ≤ k ∨ ¬ k = 0 := by omega
  have hvalue : signedValue (decide (k < 0)) k.natAbs = k := by
    simp only [signedValue, decide_eq_true_eq]
    omega
  simp [integerIn?, wholeNumber?, hzero, hvalue, hleast, hgreatest]

theorem integerIn?_nat (greatest : Nat) {n : Nat} (hn : n ≤ greatest) :
    integerIn? 0 greatest ⟨⟨false, n, 0⟩, true⟩ = some (n : Int) := by
  have hint := integerIn?_int (Int.natCast_nonneg n) (Int.ofNat_le.mpr hn)
  rwa [decide_eq_false (by omega), Int.natAbs_natCast] at hint

/-! ## Sequences -/

variable {ι : Type} {items : List ι} {schema : ι → Schema} {value : ι → Value} {datum : ι → Datum}
  {name : ι → String}

theorem interpretItems_map
    (h : ∀ i ∈ items, interpretWith float? (schema i) (value i) = some (datum i)) :
    interpretItems float? (items.map schema) (items.map value) = some (items.map datum) := by
  induction items with
  | nil => rfl
  | cons i items ih =>
    obtain ⟨hi, hitems⟩ := List.forall_mem_cons.mp h
    simp [interpretItems, hi, ih hitems]

theorem field?_map (hnames : (items.map name).Nodup) {i : ι} (hi : i ∈ items) :
    field? (name i) (items.map fun i ↦ (name i, value i)) = some (some (value i)) := by
  have hfilter : (items.map fun i ↦ (name i, value i)).filter (fun m ↦ m.1 = name i) =
      [(name i, value i)] := by
    induction items with
    | nil => cases hi
    | cons j items ih =>
      obtain ⟨hj, hitems⟩ := List.nodup_cons.mp hnames
      rw [List.map_cons]
      obtain rfl | hi := List.mem_cons.mp hi
      · have hothers : (items.map fun i ↦ (name i, value i)).filter (fun m ↦ m.1 = name i) = [] := by
          rw [List.filter_eq_nil_iff]
          intro m hm
          obtain ⟨k, hk, rfl⟩ := List.mem_map.mp hm
          exact fun heq ↦ hj (of_decide_eq_true heq ▸ List.mem_map_of_mem hk)
        rw [List.filter_cons_of_pos (by simp), hothers]
      · have hne : name j ≠ name i := fun heq ↦ hj (heq ▸ List.mem_map_of_mem hi)
        rw [List.filter_cons_of_neg (by simpa using hne), ih hitems hi]
  rw [field?, hfilter]

/-- Each field is found under its name. -/
theorem interpretFields_map {defaults : List (String × Datum)} {members : List (String × Value)}
    (hfind : ∀ i ∈ items, field? (name i) members = some (some (value i)))
    (h : ∀ i ∈ items, interpretWith float? (schema i) (value i) = some (datum i)) :
    interpretFields float? defaults (items.map fun i ↦ (name i, schema i)) members =
      some (items.map fun i ↦ (name i, datum i)) := by
  induction items with
  | nil => rfl
  | cons i items ih =>
    obtain ⟨hi, hitems⟩ := List.forall_mem_cons.mp h
    obtain ⟨hfindi, hfinditems⟩ := List.forall_mem_cons.mp hfind
    simp [interpretFields, hfindi, hi, ih hfinditems hitems]

theorem interpretCase_eq {cases : List (String × Schema)} {index : Nat} {wanted : String}
    {payload : Schema} (h : Schema.HasCase cases index wanted payload) (k : Nat) (v : Value) :
    interpretCase float? cases k wanted v =
      (interpretWith float? payload v).map (.variant (k + index) wanted) := by
  obtain ⟨hposition, -, hfound, -⟩ := h
  induction cases generalizing k index with
  | nil => cases hfound
  | cons c cases ih =>
    obtain ⟨label, schema⟩ := c
    rw [List.findIdx_cons] at hposition
    rw [List.find?_cons] at hfound
    by_cases hlabel : label = wanted
    · subst hlabel
      simp only [decide_true, cond_true] at hposition
      simp only [decide_true, Option.some.injEq, Prod.mk.injEq, true_and] at hfound
      subst hposition hfound
      rw [interpretCase, if_neg (not_not.mpr rfl), Nat.add_zero]
    · simp only [hlabel, decide_false, cond_false] at hposition hfound
      rw [interpretCase, if_pos hlabel, ih (k + 1) rfl hfound, ← hposition, Nat.add_assoc,
        Nat.add_comm 1]

/-! ## Printed data -/

variable {level : Nat}

theorem printItems_eq_map (ds : List Datum) : printItems level ds = ds.map (print level) := by
  induction ds with
  | nil => rfl
  | cons d ds ih => rw [printItems, ih, List.map_cons]

theorem printFields_eq_map (fields : List (String × Datum)) :
    printFields level fields = fields.map fun f ↦ memberText f.1 (print level f.2) := by
  induction fields with
  | nil => rfl
  | cons f fields ih =>
    rw [printFields, ih, List.map_cons]
    rfl

theorem print_variant {index : Nat} {name : String} {d : Datum} (hd : d ≠ .unit) :
    print level (.variant index name d) = singleton level name (print (level + 1) d) := by
  cases d with
  | unit => exact absurd rfl hd
  | _ => rfl

/-- The text of the datum is read as the value, and the value is interpreted as the datum. -/
structure Denotes (float? : Numeral → Option Binary32) (schema : Schema) (d : Datum) (v : Value) :
    Prop where
  reads : ∀ level, Reads (print level d) v
  interprets : interpretWith float? schema v = some d
  isPresent : schema.isNullable = false → v ≠ .null

theorem denotes_record {fields : List (String × Schema × Datum)}
    {value : String × Schema × Datum → Value}
    (h : ∀ f ∈ fields, Denotes float? f.2.1 f.2.2 (value f))
    (hnames : (fields.map Prod.fst).Nodup) (name : String) (defaults : List (String × Datum)) :
    Denotes float? (.record name (fields.map fun f ↦ (f.1, f.2.1)) defaults)
      (.record name (fields.map fun f ↦ (f.1, f.2.2)))
      (.object (fields.map fun f ↦ (f.1, value f))) := by
  refine ⟨fun level ↦ ?_, ?_, fun _ ↦ nofun⟩
  · rw [print, printFields_eq_map, List.map_map]
    exact reads_object Prod.fst (fun f hf ↦ (h f hf).reads (level + 1)) level
  · rw [interpretWith, interpretFields_map (fun f hf ↦ field?_map hnames hf) fun f hf ↦
      (h f hf).interprets]
    rfl

theorem denotes_case {cases : List (String × Schema)} {index : Nat} {name : String} {payload : Schema}
    {d : Datum} {v : Value} (hcase : Schema.HasCase cases index name payload) (hd : d ≠ .unit)
    (h : Denotes float? payload d v) :
    Denotes float? (.choice cases) (.variant index name d) (.object [(name, v)]) := by
  refine ⟨fun level ↦ ?_, ?_, fun _ ↦ nofun⟩
  · rw [print_variant hd]
    exact reads_singleton (h.reads _) level name
  · rw [interpretWith, interpretCase_eq hcase, h.interprets, Nat.zero_add]
    rfl

/-- Every datum that fits a schema is written as some value and read from it. -/
theorem exists_denotes {schema : Schema} {d : Datum} (h : schema.Admits (limits float?) d) :
    ∃ v, Denotes float? schema d v := by
  induction h with
  | bool b => exact ⟨.bool b, fun _ ↦ reads_bool b, rfl, fun _ ↦ nofun⟩
  | byte x =>
    have hx := x.toNat_lt
    refine ⟨_, fun _ ↦ ReadsNumber.reads fun rest hrest ↦ readNumber_nat x.toNat hrest, ?_,
      fun _ ↦ nofun⟩
    have hinteger := integerIn?_nat 0xff (n := x.toNat) (by omega)
    rw [Nat.cast_ofNat] at hinteger
    rw [interpretWith, hinteger]
    simp
  | word x =>
    have hx := x.toNat_lt
    refine ⟨_, fun _ ↦ ReadsNumber.reads fun rest hrest ↦ readNumber_nat x.toNat hrest, ?_,
      fun _ ↦ nofun⟩
    have hinteger := integerIn?_nat 0xffffffff (n := x.toNat) (by omega)
    rw [Nat.cast_ofNat] at hinteger
    rw [interpretWith, hinteger]
    simp
  | integer x =>
    have hlow := x.le_toInt
    have hhigh := x.toInt_lt
    refine ⟨_, fun _ ↦ ReadsNumber.reads fun rest hrest ↦ readNumber_int x.toInt hrest, ?_,
      fun _ ↦ nofun⟩
    rw [interpretWith, integerIn?_int (by omega) (by omega)]
    simp
  | float hx =>
    obtain ⟨n, hn, -⟩ := exists_readsNumber hx.1
    refine ⟨.number n, fun level ↦ ?_, ?_, fun _ ↦ nofun⟩
    · rw [print, if_pos hx.1]
      exact hn.reads
    · rw [interpretWith, hx.2 n hn]
      rfl
  | @text s _ => exact ⟨.string s, fun _ ↦ reads_quote s, rfl, fun _ ↦ nofun⟩
  | absent inner => exact ⟨.null, fun _ ↦ reads_null, rfl, nofun⟩
  | present hinner _ ih =>
    obtain ⟨v, hv⟩ := ih
    refine ⟨v, hv.reads, ?_, nofun⟩
    rw [interpretWith, hv.interprets]
    · rfl
    · exact hv.isPresent hinner
  | @list item items _ _ ih =>
    choose! value hvalue using ih
    refine ⟨.array (items.map value), fun level ↦ ?_, ?_, fun _ ↦ nofun⟩
    · rw [print, printItems_eq_map]
      exact reads_list (fun d hd ↦ (hvalue d hd).reads _) level
    · rw [interpretWith, mapM_map_eq_some (k := id) fun d hd ↦ (hvalue d hd).interprets, List.map_id]
      rfl
  | map hkey => exact hkey.elim
  | @tuple items _ ih =>
    choose! value hvalue using ih
    refine ⟨.array (items.map value), fun level ↦ ?_, ?_, fun _ ↦ nofun⟩
    · rw [print, printItems_eq_map, List.map_map]
      exact reads_list (fun p hp ↦ (hvalue p hp).reads _) level
    · rw [interpretWith, interpretItems_map fun p hp ↦ (hvalue p hp).interprets]
      rfl
  | wrapper _ _ ih =>
    obtain ⟨v, hv⟩ := ih
    refine ⟨v, hv.reads, ?_, hv.isPresent⟩
    rw [interpretWith, hv.interprets]
    rfl
  | record _ hnames _ ih =>
    choose! value hvalue using ih
    exact ⟨_, denotes_record hvalue hnames.distinct _ _⟩
  | @constant cases index name hcase =>
    refine ⟨.string name, fun level ↦ reads_quote name, ?_, fun _ ↦ nofun⟩
    rw [interpretWith, interpretCase_eq hcase, Nat.zero_add]
    rfl
  | fields hcase hnames _ ih =>
    choose! value hvalue using ih
    exact ⟨_, denotes_case hcase nofun (denotes_record hvalue hnames.distinct _ _)⟩
  | single hcase hsingle hd ih =>
    obtain ⟨v, hv⟩ := ih
    refine ⟨_, denotes_case hcase ?_ hv⟩
    rintro rfl
    have h := hd.isSingle
    rw [hsingle] at h
    cases h

/-! ## Documents -/

variable {schema : Schema} {d e : Datum}

theorem Reads.ofText? {s : String} {v : Value} (h : Reads s v) : Value.ofText? s = some v := by
  have hends : Ends [] := fun c hc ↦ absurd hc (by simp)
  have hread : readValue (2 * s.length + 2) (s.toList ++ []) = some (v, []) :=
    h.reads hends (by rw [String.length_toList]; omega)
  rw [List.append_nil] at hread
  rw [Value.ofText?, hread]
  rfl

/-- Reading what is written for a datum that fits a schema gives the datum. -/
theorem read?_write (h : schema.Admits (limits floatOf?) d) : read? schema (write d) = some d := by
  obtain ⟨v, hv⟩ := exists_denotes h
  simp only [read?, write, (hv.reads 0).ofText?, Option.bind_eq_bind, Option.bind_some]
  exact hv.interprets

/-! ## Floats -/

variable {x : Binary32} {n m : Numeral} {text : String}

theorem ReadsNumber.eq (hn : ReadsNumber text n) (hm : ReadsNumber text m) : n = m := by
  have hends : Ends [] := fun c hc ↦ absurd hc (by simp)
  have hread := (hn hends).symm.trans (hm hends)
  exact congrArg Prod.fst (Option.some.inj hread)

/-- Rounds a number to a float at once. -/
def nearest? (n : Numeral) : Option Binary32 :=
  some (.ofDecimal n.value)

theorem nearest?_of_readsNumber (hx : x.isFinite = true) (hn : ReadsNumber (floatText x) n) :
    nearest? n = some x := by
  obtain ⟨m, hm, hnegative, hsize⟩ := exists_readsNumber hx
  obtain rfl := hn.eq hm
  exact congrArg some (Binary32.ofDecimal_of_size .even hx hnegative hsize)

/-- A float that is read back from its own text is what the number in the text is rounded to. -/
theorem floatOf?_of_read? (hx : x.isFinite = true)
    (h : read? .float (write (.float x)) = some (.float x)) (n : Numeral)
    (hn : ReadsNumber (floatText x) n) : floatOf? n = some x := by
  rw [read?, write, print, if_pos hx, hn.reads.ofText?] at h
  obtain ⟨y, hy, heq⟩ := Option.map_eq_some_iff.mp h
  obtain rfl := Datum.float.inj heq
  exact hy

/-! ## Injectivity -/

/-- Data that fit a schema are equal if the same is written for them. -/
theorem eq_of_write (hd : schema.Admits (limits float?) d) (he : schema.Admits (limits float?) e)
    (h : write d = write e) : d = e := by
  obtain ⟨v, hv⟩ := exists_denotes hd
  obtain ⟨w, hw⟩ := exists_denotes he
  have hvalue : some v = some w := by
    rw [← (hv.reads 0).ofText?, ← (hw.reads 0).ofText?]
    exact congrArg Value.ofText? h
  obtain rfl := Option.some.inj hvalue
  exact Option.some.inj (hv.interprets.symm.trans hw.interprets)

end Json

end ShaderGraph
