import ShaderGraph.Proofs.Data.Lists
import ShaderGraph.Proofs.Data.Maps
import ShaderGraph.Proofs.Storage.Schema
import ShaderGraph.Storage.Stored

/-!
# Stored values are restored

The datum of a value fits the schema of its type and is restored as the value. Records are treated
field by field, and choices by their cases.
-/

namespace ShaderGraph

/-! ## Restored records and maps

A record is restored by taking its fields off the data one after another. A restored map has each of
its keys once.
-/

namespace RecordFields

variable {σ α β : Type} [Stored β] {ds rest : List (String × Datum)} {a : α}

theorem restore?_build_eq_some {make : α} :
    (build make : RecordFields σ α).restore? ds = some (a, rest) ↔ make = a ∧ ds = rest := by
  simp [build]

/-- The last field of a record is restored from the first datum that the fields before it leave. -/
theorem restore?_field_eq_some {r : RecordFields σ (β → α)} {name : String} {get : σ → β} :
    (r.field name get).restore? ds = some (a, rest) ↔
      ∃ make label d b, r.restore? ds = some (make, (label, d) :: rest) ∧
        Stored.restore? d = some b ∧ make b = a := by
  unfold field
  constructor
  · intro h
    obtain ⟨⟨make, left⟩, hr, h⟩ := Option.bind_eq_some_iff.mp h
    obtain _ | ⟨⟨label, d⟩, left⟩ := left
    · cases h
    · obtain ⟨b, hb, h⟩ := Option.bind_eq_some_iff.mp h
      obtain ⟨rfl, rfl⟩ := Prod.mk.inj (Option.some.inj h)
      exact ⟨make, label, d, b, hr, hb, rfl⟩
  · rintro ⟨make, label, d, b, hr, hb, rfl⟩
    simp [hr, hb]

theorem restoreRecord?_eq_some {r : RecordFields σ α} {d : Datum} :
    r.restoreRecord? d = some a ↔ ∃ name ds, d = .record name ds ∧ r.restore? ds = some (a, []) := by
  constructor
  · intro h
    cases d with
    | record name ds =>
      obtain ⟨⟨a', left⟩, hr, h⟩ := Option.bind_eq_some_iff.mp h
      obtain _ | ⟨_, _⟩ := left
      · obtain rfl := Option.some.inj h
        exact ⟨name, ds, rfl, hr⟩
      · cases h
    | _ => cases h
  · rintro ⟨name, ds, rfl, hr⟩
    simp [restoreRecord?, hr]

end RecordFields

namespace OrderedMap

variable {κ α : Type} [DecidableEq κ]

theorem distinct_ofList (es : List (κ × α)) : (ofList es).Distinct := by
  have hgeneral : ∀ m : OrderedMap κ α, m.Distinct →
      (es.foldl (fun m e ↦ m.insert e.1 e.2) m).Distinct := by
    induction es with
    | nil => exact fun _ h ↦ h
    | cons e es ih => exact fun m h ↦ ih _ (h.insert e.1 e.2)
  exact hgeneral empty distinct_empty

/-- Entries with distinct keys are a map as they are. -/
theorem ofList_entries {m : OrderedMap κ α} (h : m.Distinct) : ofList m.entries = m := by
  have hgeneral : ∀ es : List (κ × α), ∀ m₀ : OrderedMap κ α,
      ((m₀.entries ++ es).map Prod.fst).Nodup →
      es.foldl (fun m e ↦ m.insert e.1 e.2) m₀ = ⟨m₀.entries ++ es⟩ := by
    intro es
    induction es with
    | nil => simp
    | cons e es ih =>
      intro m₀ hnodup
      have hnew : e.1 ∉ m₀.entries.map Prod.fst := by
        rw [List.map_append, List.nodup_append] at hnodup
        exact fun hmem ↦ hnodup.2.2 _ hmem _ List.mem_cons_self rfl
      have hinsert : m₀.insert e.1 e.2 = ⟨m₀.entries ++ [e]⟩ := by
        rw [OrderedMap.insert, insertEntry_of_notMem hnew]
      rw [List.foldl_cons, hinsert, ih, List.append_assoc, List.singleton_append]
      rwa [List.append_assoc, List.singleton_append]
  exact hgeneral m.entries empty h

/-- Of several entries under one key the last one counts. -/
theorem get?_ofList_eq_lookup_reverse (es : List (κ × α)) (k : κ) :
    (ofList es).get? k = es.reverse.lookup k := by
  have hgeneral : ∀ m : OrderedMap κ α, (es.foldl (fun m e ↦ m.insert e.1 e.2) m).get? k =
      (es.reverse.lookup k).or (m.get? k) := by
    induction es with
    | nil => simp
    | cons e es ih =>
      intro m
      rw [List.foldl_cons, ih, get?_insert, List.reverse_cons, List.lookup_append, Option.or_assoc,
        List.lookup_cons, List.lookup_nil]
      by_cases hk : k = e.1
      · simp [hk]
      · have hne : (k == e.1) = false := by simpa using hk
        simp [hk, hne]
  rw [ofList, hgeneral, get?_empty, Option.or_none]

theorem distinct_of_restore? [Stored κ] [Stored α] {d : Datum} {m : OrderedMap κ α}
    (h : restore? d = some m) : m.Distinct := by
  cases d with
  | map ds =>
    obtain ⟨es, -, rfl⟩ := Option.map_eq_some_iff.mp h
    exact distinct_ofList es
  | _ => cases h

end OrderedMap

/-! ## Stored values -/

variable {limits : Limits}

/-- The value is stored as a datum that fits the schema of its type, and restored from it. -/
structure Restores (limits : Limits) {α : Type} [Stored α] (a : α) : Prop where
  admits : (Stored.schema α).Admits limits (store a)
  restores : restore? (store a) = some a

section Basic

variable {α β : Type} [Stored α] [Stored β]

theorem Restores.bool (b : Bool) : Restores limits b :=
  ⟨.bool b, rfl⟩

theorem Restores.byte (x : UInt8) : Restores limits x :=
  ⟨.byte x, rfl⟩

theorem Restores.word (x : UInt32) : Restores limits x :=
  ⟨.word x, rfl⟩

theorem Restores.integer (x : Int32) : Restores limits x :=
  ⟨.integer x, rfl⟩

theorem Restores.float {x : Binary32} (hx : limits.float x) : Restores limits x :=
  ⟨.float hx, rfl⟩

theorem Restores.text {s : String} (hsize : limits.size s.utf8ByteSize) : Restores limits s :=
  ⟨.text hsize, rfl⟩

theorem Restores.option {a? : Option α} (hoptional : limits.optional (Stored.schema α))
    (h : ∀ a ∈ a?, Restores limits a) : Restores limits a? := by
  cases a? with
  | none => exact ⟨.absent _, rfl⟩
  | some a =>
    have ha := h a rfl
    refine ⟨.present hoptional ha.admits, ?_⟩
    change (restore? (store a)).map some = some (some a)
    rw [ha.restores]
    rfl

theorem mapM_restore? {as : List α} (h : ∀ a ∈ as, Restores limits a) :
    (as.map store).mapM restore? = some as := by
  rw [mapM_map_eq_some (k := id) fun a ha ↦ (h a ha).restores, List.map_id]

theorem Restores.list {as : List α} (hsize : limits.size as.length)
    (h : ∀ a ∈ as, Restores limits a) : Restores limits as := by
  refine ⟨.list (by rwa [List.length_map]) fun d hd ↦ ?_, mapM_restore? h⟩
  obtain ⟨a, ha, rfl⟩ := List.mem_map.mp hd
  exact (h a ha).admits

theorem Restores.vector {n : Nat} {as : Vector α n} (h : ∀ a ∈ as.toList, Restores limits a) :
    Restores limits as := by
  constructor
  · have hschemas : List.replicate n (Stored.schema α) =
        (as.toList.map fun a ↦ (Stored.schema α, store a)).map Prod.fst := by
      simp [Function.comp_def, List.map_const']
    have hdata : as.toList.map store =
        (as.toList.map fun a ↦ (Stored.schema α, store a)).map Prod.snd := by
      rw [List.map_map]
      rfl
    change Schema.Admits limits (.tuple (List.replicate n (Stored.schema α)))
      (.tuple (as.toList.map store))
    rw [hschemas, hdata]
    refine .tuple fun p hp ↦ ?_
    obtain ⟨a, ha, rfl⟩ := List.mem_map.mp hp
    exact (h a ha).admits
  · change (do
      let bs ← (as.toList.map store).mapM (restore? (α := α))
      if h : bs.toArray.size = n then some ⟨bs.toArray, h⟩ else none) = some as
    rw [mapM_restore? h]
    simp [Vector.toList]

theorem mapM_restorePairs {es : List (α × β)} (hkeys : ∀ e ∈ es, Restores limits e.1)
    (hvalues : ∀ e ∈ es, Restores limits e.2) :
    (es.map fun e ↦ (store e.1, store e.2)).mapM restoreEntry? = some es := by
  rw [mapM_map_eq_some (k := id) fun e he ↦ ?_, List.map_id]
  simp [ restoreEntry?, (hkeys e he).restores, (hvalues e he).restores]

/-- A map with distinct keys. -/
theorem Restores.map [DecidableEq α] {m : OrderedMap α β} (hm : m.Distinct)
    (hkey : limits.key (Stored.schema α)) (hsize : limits.size m.entries.length)
    (hkeys : ∀ e ∈ m.entries, Restores limits e.1)
    (hvalues : ∀ e ∈ m.entries, Restores limits e.2) : Restores limits m := by
  constructor
  · refine .map hkey (by rwa [List.length_map]) ?_ ?_
    · intro d hd
      obtain ⟨e, he, rfl⟩ := List.mem_map.mp hd
      exact (hkeys e he).admits
    · intro d hd
      obtain ⟨e, he, rfl⟩ := List.mem_map.mp hd
      exact (hvalues e he).admits
  · change ((m.entries.map fun e ↦ (store e.1, store e.2)).mapM restoreEntry?).map
      OrderedMap.ofList = some m
    rw [mapM_restorePairs hkeys hvalues, Option.map_some, OrderedMap.ofList_entries hm]

end Basic

/-! ### Labels -/

/-- Every value of the type has a label of its own, which is a word, and its position takes no more
than four bytes. -/
class LawfulLabelled (α : Type) [Labelled α] [BEq α] : Prop where
  position (a : α) : ((Labelled.all : List α).findIdx fun b ↦ Labelled.label b = Labelled.label a) =
    Labelled.index a
  found (a : α) : Labelled.ofLabel? (Labelled.label a) = some a
  word (a : α) : Ron.isWord (Labelled.label a) = true
  few : (Labelled.all : List α).length ≤ 2 ^ 32

theorem LawfulLabelled.ofAll {α : Type} [Labelled α] [DecidableEq α]
    (hall : ∀ a : α, a ∈ (Labelled.all : List α))
    (hlabels : ((Labelled.all : List α).map Labelled.label).Nodup)
    (hwords : ∀ a ∈ (Labelled.all : List α), Ron.isWord (Labelled.label a) = true)
    (hfew : (Labelled.all : List α).length ≤ 2 ^ 32 := by decide) : LawfulLabelled α := by
  have hgeneral : ∀ as : List α, (as.map Labelled.label).Nodup → ∀ a ∈ as,
      (as.findIdx fun b ↦ Labelled.label b = Labelled.label a) = as.idxOf a ∧
        (as.find? fun b ↦ Labelled.label b = Labelled.label a) = some a := by
    intro as
    induction as with
    | nil => exact fun _ a ha ↦ absurd ha List.not_mem_nil
    | cons b as ih =>
      intro hnodup a ha
      rw [List.map_cons, List.nodup_cons] at hnodup
      rw [List.findIdx_cons, List.find?_cons, List.idxOf_cons]
      obtain rfl | ha := List.mem_cons.mp ha
      · simp
      · have hlabel : Labelled.label b ≠ Labelled.label a := fun heq ↦
          hnodup.1 (heq ▸ List.mem_map_of_mem ha)
        have hne : (b == a) = false := by
          rw [beq_eq_false_iff_ne]
          rintro rfl
          exact hlabel rfl
        obtain ⟨hposition, hfound⟩ := ih hnodup.2 a ha
        simp [hlabel, hne, hposition, hfound]
  exact ⟨fun a ↦ (hgeneral _ hlabels a (hall a)).1, fun a ↦ (hgeneral _ hlabels a (hall a)).2,
    fun a ↦ hwords a (hall a), hfew⟩

theorem Restores.labelled {α : Type} [Labelled α] [BEq α] [LawfulLabelled α] (a : α) :
    Restores limits a := by
  have hfound := LawfulLabelled.found a
  have hfew : ((Labelled.all : List α).map fun a ↦ (Labelled.label a, Schema.unit)).length ≤
      2 ^ 32 := (List.length_map _).trans_le LawfulLabelled.few
  refine ⟨.constant ⟨?_, hfew, ?_, LawfulLabelled.word a⟩, hfound⟩
  · rw [List.findIdx_map]
    exact LawfulLabelled.position a
  · unfold Labelled.ofLabel? at hfound
    rw [List.find?_map]
    erw [hfound]
    rfl

/-! ### Records -/

theorem Restores.wrapper {α β : Type} [Stored β] {name : String} {get : α → β} {make : β → α} {a : α}
    (hname : Ron.isWord name = true) (hmake : make (get a) = a) (h : Restores limits (get a)) :
    @Restores limits α (storedWrapper name get make) a := by
  let _ := storedWrapper name get make
  refine ⟨.wrapper hname h.admits, ?_⟩
  change (restore? (store (get a))).map make = some a
  rw [h.restores, Option.map_some, hmake]

namespace RecordFields

variable {σ α β : Type} {s : σ} {a : α}

/-- The fields of a value fit their schemas, and another value is built from them. -/
structure Restores (limits : Limits) (r : RecordFields σ α) (s : σ) (a : α) : Prop where
  admits : ∃ fields : List (String × Schema × Datum),
    r.fields = fields.map (fun f ↦ (f.1, f.2.1)) ∧
      r.store s = fields.map (fun f ↦ (f.1, f.2.2)) ∧ ∀ f ∈ fields, f.2.1.Admits limits f.2.2
  restores : ∀ rest, r.restore? (r.store s ++ rest) = some (a, rest)

theorem Restores.build (limits : Limits) (s : σ) (make : α) :
    (RecordFields.build make).Restores limits s make :=
  ⟨⟨[], rfl, rfl, nofun⟩, fun _ ↦ rfl⟩

theorem Restores.field [Stored β] {r : RecordFields σ (β → α)} {make : β → α}
    (h : r.Restores limits s make) (name : String) (get : σ → β)
    (hget : ShaderGraph.Restores limits (get s)) :
    (r.field name get).Restores limits s (make (get s)) := by
  obtain ⟨⟨fields, hschemas, hdata, hadmits⟩, hrestores⟩ := h
  refine ⟨⟨fields ++ [(name, Stored.schema β, Stored.store (get s))], ?_, ?_, ?_⟩, fun rest ↦ ?_⟩
  · simp [RecordFields.field, hschemas]
  · simp [RecordFields.field, hdata]
  · exact List.forall_mem_append.mpr ⟨hadmits, List.forall_mem_singleton.mpr hget.admits⟩
  · rw [restore?_field_eq_some]
    refine ⟨make, name, Stored.store (get s), get s, ?_, hget.restores, rfl⟩
    rw [RecordFields.field, List.append_assoc]
    exact hrestores _

theorem Restores.restoreRecord? {r : RecordFields σ α} (h : r.Restores limits s a) (name : String) :
    r.restoreRecord? (r.storeRecord name s) = some a := by
  rw [restoreRecord?_eq_some]
  refine ⟨name, r.store s, rfl, ?_⟩
  simpa using h.restores []

/-- The record fits its schema. -/
theorem Restores.admitsRecord {r : RecordFields σ α} (h : r.Restores limits s a) {name : String}
    (hname : Ron.isWord name = true) (hnames : Schema.AreNames (r.fields.map Prod.fst)) :
    (r.schema name).Admits limits (r.storeRecord name s) := by
  obtain ⟨fields, hschemas, hdata, hadmits⟩ := h.admits
  rw [hschemas, List.map_map] at hnames
  rw [schema, storeRecord, hschemas, hdata]
  exact .record hname hnames hadmits

end RecordFields

theorem Restores.record {α : Type} {name : String} {r : RecordFields α α} {a : α}
    (hname : Ron.isWord name = true) (hnames : Schema.AreNames (r.fields.map Prod.fst))
    (h : r.Restores limits a a) : @Restores limits α (storedRecord name r) a := by
  let _ := storedRecord name r
  exact ⟨h.admitsRecord hname hnames, h.restoreRecord? name⟩

/-! ### Cases -/

namespace Case

variable {α : Type}

/-- The payload fits a case and stands for the value. -/
inductive Restores (limits : Limits) : Case α → Datum → α → Prop
  | constant (name : String) (a : α) : Restores limits (.constant name a) .unit a
  | ofFields {σ : Type} {r : RecordFields σ α} {s : σ} {a : α} (name : String)
    (hnames : Schema.AreNames (r.fields.map Prod.fst)) (h : r.Restores limits s a) :
    Restores limits (.ofFields name r) (fieldsPayload r s) a
  | single {β : Type} [Stored β] {b : β} (name : String) (make : β → α)
    (hsingle : (Stored.schema β).isSingle = true) (h : ShaderGraph.Restores limits b) :
    Restores limits (.single name make) (Stored.store b) (make b)

variable {cases : List (Case α)} {c : Case α} {name : String} {payload : Datum} {a : α}

theorem hasCase (hfound : (cases.find? fun c ↦ c.name = name) = some c)
    (hword : Ron.isWord name = true) (hfew : cases.length ≤ 2 ^ 32) :
    Schema.HasCase (cases.map fun c ↦ (c.name, c.payload)) (cases.findIdx fun c ↦ c.name = name)
      name c.payload := by
  refine ⟨by rw [List.findIdx_map]; rfl, by rwa [List.length_map], ?_, hword⟩
  have hname : c.name = name := by simpa using List.find?_some hfound
  rw [List.find?_map, ← hname]
  subst hname
  exact congrArg (Option.map _) hfound

theorem find?_of_mem (hnames : Schema.AreNames (cases.map Case.name)) (hc : c ∈ cases) :
    (cases.find? fun c' ↦ c'.name = c.name) = some c := by
  obtain ⟨hnodup, -⟩ := hnames
  induction cases with
  | nil => cases hc
  | cons c' cases ih =>
    rw [List.map_cons, List.nodup_cons] at hnodup
    rw [List.find?_cons]
    obtain rfl | hc := List.mem_cons.mp hc
    · simp
    · have hne : c'.name ≠ c.name := fun heq ↦ hnodup.1 (heq ▸ List.mem_map_of_mem hc)
      simp [hne, ih hc hnodup.2]

/-- A value is restored from the case with its name. -/
theorem restores (hnames : Schema.AreNames (cases.map Case.name)) (hc : c ∈ cases)
    (hfew : cases.length ≤ 2 ^ 32) (h : c.Restores limits payload a) :
    (schemaOf cases).Admits limits (store cases c.name payload) ∧
      restoreOf? cases (store cases c.name payload) = some a := by
  have hfound := find?_of_mem hnames hc
  have hcase := hasCase hfound (hnames.words _ (List.mem_map_of_mem hc)) hfew
  have hrestore : restoreOf? cases (store cases c.name payload) = c.restore? payload := by
    rw [store, restoreOf?, hfound]
    rfl
  rw [hrestore]
  cases h with
  | constant => exact ⟨.constant hcase, rfl⟩
  | ofFields _ hnames h =>
    refine ⟨?_, h.restoreRecord? ""⟩
    obtain ⟨fields, hschemas, hdata, hadmits⟩ := h.admits
    rw [hschemas, List.map_map] at hnames
    rw [Case.store, fieldsPayload, RecordFields.storeRecord, hdata]
    change Schema.HasCase _ _ _ (.record "" _ []) at hcase
    rw [hschemas] at hcase
    exact .fields hcase hnames hadmits
  | single _ make hsingle h =>
    refine ⟨.single hcase hsingle h.admits, ?_⟩
    exact congrArg (Option.map make) h.restores

end Case

end ShaderGraph
