import ShaderGraph.Binary.Reader
import ShaderGraph.Proofs.Storage.Schema

/-!
# Written bytes are read back

Reading the bytes of a datum that fits a schema gives the datum and leaves all that follows the bytes,
as long as the sizes in it can be written in eight bytes.
-/

namespace ShaderGraph

/-- Bytes hold all floats, missing values of all kinds and all keys, but sizes only up to their
width. -/
def Limits.bytes : Limits where
  float _ := True
  size n := n < 2 ^ 64
  optional _ := True
  key _ := True

namespace Binary

/-- The reader takes the bytes for the value and leaves what follows them. -/
def Reads {α : Type} (reader : Reader α) (bs : List UInt8) (a : α) : Prop :=
  ∀ rest, reader (bs ++ rest) = some (a, rest)

/-! ## Numbers -/

theorem length_littleEndian (width n : Nat) : (littleEndian width n).length = width := by
  induction width generalizing n with
  | zero => rfl
  | succ width ih => rw [littleEndian, List.length_cons, ih]

theorem ofLittleEndian_littleEndian {width n : Nat} (hn : n < 256 ^ width) :
    ofLittleEndian (littleEndian width n) = n := by
  induction width generalizing n with
  | zero =>
    obtain rfl : n = 0 := by simpa using hn
    rfl
  | succ width ih =>
    have hquotient : n / 256 < 256 ^ width := by
      rw [Nat.div_lt_iff_lt_mul (by decide), ← Nat.pow_succ]
      exact hn
    have hbyte : (UInt8.ofNat (n % 256)).toNat = n % 256 :=
      UInt8.toNat_ofNat_of_lt' (Nat.mod_lt n (by decide))
    rw [littleEndian, ofLittleEndian, ih hquotient, hbyte, Nat.mod_add_div]

theorem reads_bytes (bs : List UInt8) : Reads (readBytes bs.length) bs bs := by
  intro rest
  simp [readBytes]

theorem reads_number {width n : Nat} (hn : n < 256 ^ width) :
    Reads (readNumber width) (littleEndian width n) n := by
  intro rest
  have hbytes := reads_bytes (littleEndian width n) rest
  rw [length_littleEndian] at hbytes
  simp [readNumber, hbytes, ofLittleEndian_littleEndian hn]

theorem reads_length {n : Nat} (hn : n < 2 ^ 64) : Reads (readNumber 8) (length n) n :=
  reads_number hn

theorem reads_word (x : UInt32) : Reads (readNumber 4) (littleEndian 4 x.toNat) x.toNat :=
  reads_number x.toNat_lt

theorem reads_flag (b : Bool) : Reads readFlag [if b then 1 else 0] b := by
  cases b <;> exact fun _ ↦ rfl

/-- The bytes of an array from a position on. -/
theorem toList_loop_eq (bs : ByteArray) (i : Nat) (taken : List UInt8) :
    ByteArray.toList.loop bs i taken = taken.reverse ++ bs.data.toList.drop i := by
  fun_induction ByteArray.toList.loop bs i taken with
  | case1 i taken hlt ih =>
    have hlength : i < bs.data.toList.length := hlt
    have hget : bs.get! i = bs.data.toList[i] := by
      simp [ByteArray.get!, hlt]
    rw [ih, List.drop_eq_getElem_cons hlength, hget]
    simp
  | case2 i taken hge =>
    have hlength : bs.data.toList.length ≤ i := Nat.le_of_not_lt hge
    rw [List.drop_eq_nil_of_le hlength, List.append_nil]

theorem toArray_toList (bs : ByteArray) : bs.toList.toArray = bs.data := by
  rw [ByteArray.toList, toList_loop_eq]
  rfl

theorem reads_text {s : String} (hs : s.utf8ByteSize < 2 ^ 64) : Reads readText (text s) s := by
  intro rest
  have hbytes : s.toUTF8.toList.length = s.utf8ByteSize := by
    rw [← List.size_toArray, toArray_toList]
    rfl
  have htext : String.fromUTF8? ⟨s.toUTF8.toList.toArray⟩ = some s := by
    rw [toArray_toList]
    exact dif_pos s.isValidUTF8
  rw [← hbytes] at hs
  rw [text, List.append_assoc]
  simp only [readText, reads_length hs _, reads_bytes _ rest, htext, Option.bind_eq_bind,
    Option.bind_some, Option.pure_def]

/-! ## Sequences -/

variable {ι α : Type} {items : List ι} {bytes : ι → List UInt8}

theorem reads_many {reader : Reader α} (value : ι → α)
    (h : ∀ i ∈ items, Reads reader (bytes i) (value i)) :
    Reads (readMany reader items.length) (items.flatMap bytes) (items.map value) := by
  intro rest
  induction items with
  | nil => rfl
  | cons i items ih =>
    obtain ⟨hi, hitems⟩ := List.forall_mem_cons.mp h
    rw [List.length_cons, List.flatMap_cons, List.append_assoc, readMany, hi]
    simp [ih hitems]

variable {schema : ι → Schema} {datum : ι → Datum} {name : ι → String}

theorem reads_items (h : ∀ i ∈ items, Reads (readDatum (schema i)) (bytes i) (datum i)) :
    Reads (readItems (items.map schema)) (items.flatMap bytes) (items.map datum) := by
  intro rest
  induction items with
  | nil => rfl
  | cons i items ih =>
    obtain ⟨hi, hitems⟩ := List.forall_mem_cons.mp h
    rw [List.map_cons, List.flatMap_cons, List.append_assoc, readItems, hi]
    simp [ih hitems]

theorem reads_fields (h : ∀ i ∈ items, Reads (readDatum (schema i)) (bytes i) (datum i)) :
    Reads (readFields (items.map fun i ↦ (name i, schema i))) (items.flatMap bytes)
      (items.map fun i ↦ (name i, datum i)) := by
  intro rest
  induction items with
  | nil => rfl
  | cons i items ih =>
    obtain ⟨hi, hitems⟩ := List.forall_mem_cons.mp h
    rw [List.map_cons, List.flatMap_cons, List.append_assoc, readFields, hi]
    simp [ih hitems]

theorem writeItems_eq_flatMap (ds : List Datum) : writeItems ds = ds.flatMap write := by
  induction ds with
  | nil => rfl
  | cons d ds ih => rw [writeItems, ih, List.flatMap_cons]

theorem writeFields_eq_flatMap (fields : List (String × Datum)) :
    writeFields fields = fields.flatMap fun f ↦ write f.2 := by
  induction fields with
  | nil => rfl
  | cons f fields ih => rw [writeFields, ih, List.flatMap_cons]

theorem writeEntries_eq_flatMap (entries : List (Datum × Datum)) :
    writeEntries entries = entries.flatMap fun e ↦ write e.1 ++ write e.2 := by
  induction entries with
  | nil => rfl
  | cons e entries ih => rw [writeEntries, ih, List.flatMap_cons]

/-! ## Cases -/

/-- The case that is read is the one at the position. -/
theorem readCase_eq {cases : List (String × Schema)} {index skip : Nat} {name : String}
    {payload : Schema} (hposition : (cases.findIdx fun c ↦ c.1 = name) = skip)
    (hfound : (cases.find? fun c ↦ c.1 = name) = some (name, payload)) (bs : List UInt8) :
    readCase cases index skip bs =
      (readDatum payload bs).map fun p ↦ (.variant index name p.1, p.2) := by
  induction cases generalizing skip with
  | nil => cases hfound
  | cons c cases ih =>
    obtain ⟨label, schema⟩ := c
    rw [List.findIdx_cons] at hposition
    rw [List.find?_cons] at hfound
    by_cases hlabel : label = name
    · subst hlabel
      simp only [decide_true, cond_true] at hposition
      simp only [decide_true, Option.some.injEq, Prod.mk.injEq, true_and] at hfound
      subst hposition hfound
      rfl
    · simp only [hlabel, decide_false, cond_false] at hposition hfound
      subst hposition
      exact ih rfl hfound

theorem reads_case {cases : List (String × Schema)} {index : Nat} {name : String} {payload : Schema}
    {d : Datum} (hcase : Schema.HasCase cases index name payload)
    (h : Reads (readDatum payload) (write d) d) :
    Reads (readDatum (.choice cases)) (write (.variant index name d)) (.variant index name d) := by
  intro rest
  obtain ⟨hposition, hnarrow, hfound, -⟩ := hcase
  have hindex : index < 2 ^ 32 := by
    have hlt : (cases.findIdx fun c ↦ c.1 = name) < cases.length :=
      List.findIdx_lt_length_of_exists ⟨_, List.mem_of_find?_eq_some hfound, by simp⟩
    omega
  rw [write, List.append_assoc, readDatum, reads_number hindex]
  simp only [Option.bind_eq_bind, Option.bind_some, readCase_eq hposition hfound, h rest]
  rfl

/-! ## Data -/

/-- The bytes of a datum that fits a schema are read as the datum. -/
theorem reads_datum {schema : Schema} {d : Datum} (h : schema.Admits .bytes d) :
    Reads (readDatum schema) (write d) d := by
  induction h with
  | bool b =>
    intro rest
    rw [readDatum, write, reads_flag]
    rfl
  | byte x =>
    intro rest
    have hbyte : write (.byte x) = littleEndian 1 x.toNat := by
      simp [write, littleEndian]
    rw [readDatum, hbyte, reads_number x.toNat_lt]
    simp
  | word x =>
    intro rest
    rw [readDatum, write, reads_word]
    simp
  | integer x =>
    intro rest
    rw [readDatum, write, reads_word, Option.map_some, UInt32.ofNat_toNat, Int32.toInt32_toUInt32]
  | float _ =>
    intro rest
    rw [readDatum, write, reads_word]
    simp
  | text hsize =>
    intro rest
    rw [readDatum, write, reads_text hsize]
    rfl
  | absent _ => exact fun _ ↦ rfl
  | present _ _ ih =>
    intro rest
    rw [readDatum, write]
    simp [readFlag, ih rest]
  | list hsize _ ih =>
    intro rest
    rw [readDatum, write, writeItems_eq_flatMap, List.append_assoc, reads_length hsize]
    simp [reads_many id ih rest]
  | map _ hsize _ _ ihkeys ihvalues =>
    intro rest
    rw [readDatum, write, writeEntries_eq_flatMap, List.append_assoc, reads_length hsize]
    simp only [Option.bind_eq_bind, Option.bind_some]
    rw [reads_many id fun e he rest ↦ ?_]
    · simp
    · simp [ihkeys e he _, ihvalues e he _]
  | tuple _ ih =>
    intro rest
    rw [readDatum, write, writeItems_eq_flatMap, List.flatMap_map, reads_items ih]
    rfl
  | wrapper _ _ ih =>
    intro rest
    rw [readDatum, write, ih]
    rfl
  | record _ _ _ ih =>
    intro rest
    rw [readDatum, write, writeFields_eq_flatMap, List.flatMap_map, reads_fields ih]
    rfl
  | constant hcase => exact reads_case hcase fun _ ↦ rfl
  | fields hcase _ _ ih =>
    refine reads_case hcase fun rest ↦ ?_
    rw [readDatum, write, writeFields_eq_flatMap, List.flatMap_map, reads_fields ih]
    rfl
  | single hcase _ _ ih => exact reads_case hcase ih

end Binary

end ShaderGraph
