import Mathlib.Data.Option.Basic
import ShaderGraph.Data.Tables
import ShaderGraph.Proofs.Data.Lists

/-!
# Ordered maps and related tables

What is found in a map after an insertion or an erasure. In a map whose keys are distinct the entries
are exactly what is found. Two lists or tables of related entries are searched, filtered and extended
alike, if the relation tells its members apart as equality does.
-/

namespace ShaderGraph

namespace OrderedMap

variable {κ α : Type} [DecidableEq κ] {m : OrderedMap κ α} {k k' : κ} {a b : α}

@[simp]
theorem get?_empty : (empty : OrderedMap κ α).get? k = none :=
  rfl

theorem mem_values_of_get? (h : m.get? k = some a) : a ∈ m.values := by
  obtain ⟨e, he, rfl⟩ := mem_of_lookup h
  exact List.mem_map_of_mem he

theorem mem_insertEntry {es : List (κ × α)} {e : κ × α} (h : e ∈ insertEntry k a es) :
    e = (k, a) ∨ e ∈ es := by
  induction es with
  | nil => exact .inl (by simpa [insertEntry] using h)
  | cons e' es ih =>
    unfold insertEntry at h
    split at h
    · rcases List.mem_cons.mp h with rfl | h
      · exact .inl rfl
      · exact .inr (List.mem_cons_of_mem e' h)
    · rcases List.mem_cons.mp h with rfl | h
      · exact .inr List.mem_cons_self
      · exact (ih h).imp_right (List.mem_cons_of_mem e')

theorem mem_values_insert (h : b ∈ (m.insert k a).values) : b = a ∨ b ∈ m.values := by
  obtain ⟨e, he, rfl⟩ := List.mem_map.mp h
  obtain rfl | he := mem_insertEntry he
  · exact .inl rfl
  · exact .inr (List.mem_map_of_mem he)

/-! ## Lookup -/

theorem lookup_insertEntry (es : List (κ × α)) :
    (insertEntry k a es).lookup k' = if k' = k then some a else es.lookup k' := by
  induction es with
  | nil => by_cases h : k' = k <;> simp [insertEntry, h]
  | cons e es ih =>
    obtain ⟨k₀, a₀⟩ := e
    unfold insertEntry
    by_cases hk : k₀ = k
    · subst hk
      by_cases h : k' = k₀
      · subst h
        simp
      · have hne : (k' == k₀) = false := by simpa using h
        simp [List.lookup_cons, hne, h]
    · rw [if_neg hk, List.lookup_cons, ih, List.lookup_cons]
      by_cases h : k' = k₀
      · subst h
        simp [hk]
      · have hne : (k' == k₀) = false := by simpa using h
        simp [hne]

theorem get?_insert (m : OrderedMap κ α) (k k' : κ) (a : α) :
    (m.insert k a).get? k' = if k' = k then some a else m.get? k' :=
  lookup_insertEntry m.entries

theorem get?_erase (m : OrderedMap κ α) (k k' : κ) :
    (m.erase k).get? k' = if k' = k then none else m.get? k' := by
  unfold erase get?
  induction m.entries with
  | nil => simp
  | cons e es ih =>
    by_cases hk : e.1 = k
    · rw [List.filter_cons_of_neg (by simpa using hk), ih, List.lookup_cons]
      by_cases h : k' = k
      · simp [h]
      · have hne : (k' == e.1) = false := by simpa [hk] using h
        simp [h, hne]
    · rw [List.filter_cons_of_pos (by simpa using hk), List.lookup_cons, List.lookup_cons, ih]
      by_cases h : k' = e.1
      · subst h
        simp [hk]
      · have hne : (k' == e.1) = false := by simpa using h
        simp [hne]

/-! ## Distinct keys -/

/-- No key occurs twice. -/
def Distinct (m : OrderedMap κ α) : Prop :=
  m.keys.Nodup

instance (m : OrderedMap κ α) : Decidable m.Distinct :=
  inferInstanceAs (Decidable m.keys.Nodup)

omit [DecidableEq κ] in
theorem distinct_empty : (empty : OrderedMap κ α).Distinct :=
  List.nodup_nil

theorem insertEntry_of_notMem {es : List (κ × α)} (h : k ∉ es.map Prod.fst) :
    insertEntry k a es = es ++ [(k, a)] := by
  induction es with
  | nil => rfl
  | cons e es ih =>
    simp only [List.map_cons, List.mem_cons, not_or] at h
    rw [insertEntry, if_neg (Ne.symm h.1), ih h.2, List.cons_append]

theorem keys_insertEntry_of_mem {es : List (κ × α)} (h : k ∈ es.map Prod.fst) :
    (insertEntry k a es).map Prod.fst = es.map Prod.fst := by
  induction es with
  | nil => cases h
  | cons e es ih =>
    unfold insertEntry
    split
    · next hk => simp [hk]
    · next hk =>
      have hrest : k ∈ es.map Prod.fst := by
        rcases List.mem_cons.mp h with rfl | h
        · exact absurd rfl hk
        · exact h
      simp [ih hrest]

theorem Distinct.insert (h : m.Distinct) (k : κ) (a : α) : (m.insert k a).Distinct := by
  unfold Distinct keys OrderedMap.insert at *
  by_cases hk : k ∈ m.entries.map Prod.fst
  · rwa [keys_insertEntry_of_mem hk]
  · rw [insertEntry_of_notMem hk, List.map_append, List.nodup_append]
    refine ⟨h, by simp, fun x hx y hy ↦ ?_⟩
    rintro rfl
    rw [List.map_singleton, List.mem_singleton] at hy
    subst hy
    exact hk hx

theorem Distinct.erase (h : m.Distinct) (k : κ) : (m.erase k).Distinct :=
  h.sublist (List.Sublist.map Prod.fst List.filter_sublist)

omit [DecidableEq κ] in
theorem Distinct.filterValues (h : m.Distinct) (p : α → Bool) : (m.filterValues p).Distinct :=
  h.sublist (List.Sublist.map Prod.fst List.filter_sublist)

theorem Distinct.get?_eq_some_iff (h : m.Distinct) : m.get? k = some a ↔ (k, a) ∈ m.entries := by
  obtain ⟨es⟩ := m
  unfold Distinct keys at h
  unfold get?
  induction es with
  | nil => simp
  | cons e es ih =>
    obtain ⟨k₀, a₀⟩ := e
    simp only [List.map_cons, List.nodup_cons] at h ih ⊢
    rw [List.lookup_cons]
    by_cases hk : k = k₀
    · subst hk
      have hnot : (k, a) ∉ es := fun hmem ↦ h.1 (List.mem_map_of_mem hmem)
      simp [hnot, eq_comm]
    · have hne : (k == k₀) = false := by simpa using hk
      simp [hne, hk, ih h.2]

theorem Distinct.mem_values_iff (h : m.Distinct) : a ∈ m.values ↔ ∃ k, m.get? k = some a := by
  simp [values, h.get?_eq_some_iff]

theorem Distinct.get?_filterValues (h : m.Distinct) (p : α → Bool) :
    (m.filterValues p).get? k = some a ↔ m.get? k = some a ∧ p a := by
  rw [(h.filterValues p).get?_eq_some_iff, h.get?_eq_some_iff]
  simp [OrderedMap.filterValues]

/-- What is found in a map of entries whose keys are distinct. -/
theorem get?_ofList {es : List (κ × α)} (h : (es.map Prod.fst).Nodup) :
    (ofList es).get? k = es.lookup k := by
  have hgeneral : ∀ (m : OrderedMap κ α), (es.foldl (fun m e ↦ m.insert e.1 e.2) m).get? k =
      (es.lookup k).or (m.get? k) := by
    induction es with
    | nil => simp
    | cons e es ih =>
      intro m
      rw [List.map_cons, List.nodup_cons] at h
      rw [List.foldl_cons, ih h.2, get?_insert, List.lookup_cons]
      by_cases hk : k = e.1
      · subst hk
        have hnone : es.lookup e.1 = none := List.lookup_eq_none_iff.mpr fun p hp ↦ by
          simp only [bne_iff_ne, ne_eq]
          rintro heq
          exact h.1 (heq ▸ List.mem_map_of_mem hp)
        simp [hnone]
      · have hne : (k == e.1) = false := by simpa using hk
        simp [hne, hk]
  rw [ofList, hgeneral]
  simp

end OrderedMap

/-! ## Lists and tables with related entries

Two lists of related elements are searched, filtered and extended alike, if the relation tells its
members apart as equality does.
-/

/-- A relation that tells its members apart as equality does. -/
def Faithful {α β : Type} (K : α → β → Prop) : Prop :=
  ∀ a b c d, K a b → K c d → (a = c ↔ b = d)

theorem faithful_eq {α : Type} : Faithful (Eq : α → α → Prop) := by
  rintro a _ c _ rfl rfl
  exact Iff.rfl

theorem Faithful.flip {α β : Type} {K : α → β → Prop} (h : Faithful K) :
    Faithful fun b a ↦ K a b :=
  fun _ _ _ _ hab hcd ↦ (h _ _ _ _ hab hcd).symm

/-- Entries of a table, under related keys. -/
def Entry {κ κ' α β : Type} (K : κ → κ' → Prop) (P : α → β → Prop) (a : κ × α) (b : κ' × β) : Prop :=
  K a.1 b.1 ∧ P a.2 b.2

section Lists

variable {α β : Type} {P : α → β → Prop} {as : List α} {bs : List β}

theorem mem_related (hP : Faithful P) (h : List.Forall₂ P as bs) {a : α} {b : β} (hab : P a b) :
    b ∈ bs ↔ a ∈ as := by
  induction h with
  | nil => simp
  | cons hcd _ ih => rw [List.mem_cons, List.mem_cons, ih, hP _ _ _ _ hab hcd]

theorem find?_related {p : α → Bool} {q : β → Bool} (h : List.Forall₂ P as bs)
    (hpq : ∀ a b, P a b → q b = p a) : Option.Rel P (as.find? p) (bs.find? q) := by
  induction h with
  | nil => exact .none
  | @cons a b _ _ hab _ ih =>
    simp only [List.find?_cons, hpq a b hab]
    cases p a with
    | true => exact .some hab
    | false => exact ih

theorem any_related {p : α → Bool} {q : β → Bool} (h : List.Forall₂ P as bs)
    (hpq : ∀ a b, P a b → q b = p a) : bs.any q = as.any p := by
  induction h with
  | nil => rfl
  | @cons a b _ _ hab _ ih => rw [List.any_cons, List.any_cons, hpq a b hab, ih]

theorem zip_related {γ : Type} (cs : List γ) (h : List.Forall₂ P as bs) :
    List.Forall₂ (fun p q ↦ q.1 = p.1 ∧ P p.2 q.2) (cs.zip as) (cs.zip bs) := by
  induction h generalizing cs with
  | nil => simp
  | cons hab _ ih =>
    cases cs with
    | nil => exact .nil
    | cons c cs => exact .cons ⟨rfl, hab⟩ (ih cs)

theorem map_eq_of_related {γ : Type} {f : α → γ} {g : β → γ} (h : List.Forall₂ P as bs)
    (hfg : ∀ a b, P a b → g b = f a) : bs.map g = as.map f := by
  induction h with
  | nil => rfl
  | cons hab _ ih => rw [List.map_cons, List.map_cons, hfg _ _ hab, ih]

theorem eq_of_related {as bs : List α} {P : α → α → Prop} (h : List.Forall₂ P as bs)
    (hP : ∀ a b, P a b → b = a) : bs = as := by
  have hmap : bs.map id = as.map id := map_eq_of_related h hP
  rwa [List.map_id, List.map_id] at hmap

/-! ### Searches with a state -/

variable {σ τ : Type} {S : σ → τ → Prop}

theorem anyM_related {f : α → StateM σ Bool} {g : β → StateM τ Bool} (h : List.Forall₂ P as bs)
    (hfg : ∀ a b, P a b → ∀ s t, S s t →
      ((g b).run t).1 = ((f a).run s).1 ∧ S ((f a).run s).2 ((g b).run t).2)
    {s : σ} {t : τ} (hst : S s t) :
    ((bs.anyM g).run t).1 = ((as.anyM f).run s).1 ∧
      S ((as.anyM f).run s).2 ((bs.anyM g).run t).2 := by
  induction h generalizing s t with
  | nil => exact ⟨rfl, hst⟩
  | @cons a b as bs hab _ ih =>
    obtain ⟨hfound, hnext⟩ := hfg a b hab s t hst
    rw [List.anyM_cons, List.anyM_cons, StateT.run_bind, StateT.run_bind]
    generalize (f a).run s = x at hfound hnext ⊢
    generalize (g b).run t = y at hfound hnext ⊢
    obtain ⟨found, s⟩ := x
    obtain ⟨found', t⟩ := y
    obtain rfl : found' = found := hfound
    cases found' with
    | true => exact ⟨rfl, hnext⟩
    | false => exact ih hnext

theorem forM_related {f : α → StateM σ PUnit} {g : β → StateM τ PUnit} (h : List.Forall₂ P as bs)
    (hfg : ∀ a b, P a b → ∀ s t, S s t → S ((f a).run s).2 ((g b).run t).2)
    {s : σ} {t : τ} (hst : S s t) : S ((as.forM f).run s).2 ((bs.forM g).run t).2 := by
  induction h generalizing s t with
  | nil => exact hst
  | @cons a b as bs hab _ ih =>
    change S ((f a >>= fun _ ↦ as.forM f).run s).2 ((g b >>= fun _ ↦ bs.forM g).run t).2
    rw [StateT.run_bind, StateT.run_bind]
    exact ih (hfg a b hab s t hst)

end Lists

section Tables

variable {κ κ' α β : Type} [DecidableEq κ] [DecidableEq κ'] {K : κ → κ' → Prop} {P : α → β → Prop}
  {k : κ} {l : κ'} {es : List (κ × α)} {fs : List (κ' × β)}

theorem lookup_related (hK : Faithful K) (h : List.Forall₂ (Entry K P) es fs) (hk : K k l) :
    Option.Rel P (es.lookup k) (fs.lookup l) := by
  induction h with
  | nil => exact .none
  | @cons e f es fs hef _ ih =>
    have hsame : (l == f.1) = (k == e.1) := by
      rw [Bool.eq_iff_iff]
      simpa using (hK _ _ _ _ hk hef.1).symm
    rw [List.lookup_cons, List.lookup_cons, hsame]
    cases k == e.1 with
    | true => exact .some hef.2
    | false => exact ih

theorem insertEntry_related (hK : Faithful K) {a : α} {b : β} (h : List.Forall₂ (Entry K P) es fs)
    (hk : K k l) (hab : P a b) :
    List.Forall₂ (Entry K P) (OrderedMap.insertEntry k a es) (OrderedMap.insertEntry l b fs) := by
  induction h with
  | nil => exact .cons ⟨hk, hab⟩ .nil
  | @cons e f es fs hef hrest ih =>
    unfold OrderedMap.insertEntry
    by_cases heq : e.1 = k
    · rw [if_pos heq, if_pos ((hK _ _ _ _ hef.1 hk).mp heq)]
      exact .cons ⟨hk, hab⟩ hrest
    · rw [if_neg heq, if_neg fun h ↦ heq ((hK _ _ _ _ hef.1 hk).mpr h)]
      exact .cons hef ih

omit [DecidableEq κ] [DecidableEq κ'] in
theorem values_related (h : List.Forall₂ (Entry K P) es fs) :
    List.Forall₂ P (es.map Prod.snd) (fs.map Prod.snd) := by
  induction h with
  | nil => exact .nil
  | cons hef _ ih => exact .cons hef.2 ih

end Tables

end ShaderGraph
