import Mathlib.Data.List.Forall2

/-!
# Lists that belong together element by element
-/

namespace ShaderGraph

variable {α β ε : Type} {r : α → β → Prop} {as : List α} {bs : List β}

theorem exists_of_mem_left (h : List.Forall₂ r as bs) {a : α} (ha : a ∈ as) : ∃ b ∈ bs, r a b := by
  induction h with
  | nil => cases ha
  | cons hr _ ih =>
    rcases List.mem_cons.mp ha with rfl | ha
    · exact ⟨_, by simp, hr⟩
    · obtain ⟨b, hb, hr⟩ := ih ha
      exact ⟨b, List.mem_cons_of_mem _ hb, hr⟩

theorem exists_of_mem_right (h : List.Forall₂ r as bs) {b : β} (hb : b ∈ bs) : ∃ a ∈ as, r a b :=
  exists_of_mem_left h.flip hb

/-- The results of a mapping that succeeds are those of the elements. -/
theorem forall₂_of_mapM {f : α → Except ε β} (h : as.mapM f = .ok bs) :
    List.Forall₂ (fun a b ↦ f a = .ok b) as bs := by
  induction as generalizing bs with
  | nil =>
    cases h
    exact .nil
  | cons a as ih =>
    rw [List.mapM_cons] at h
    cases ha : f a with
    | error e =>
      rw [ha] at h
      cases h
    | ok b =>
      cases has : as.mapM f with
      | error e =>
        rw [ha, has] at h
        cases h
      | ok bs' =>
        rw [ha, has] at h
        cases h
        exact .cons ha (ih has)

/-- A mapping fails if it fails for an element, with the failure of one of them. -/
theorem exists_mapM_eq_error {f : α → Except ε β} {P : ε → Prop}
    (hfail : ∃ a ∈ as, ∃ e, f a = .error e) (hP : ∀ a ∈ as, ∀ e, f a = .error e → P e) :
    ∃ e, as.mapM f = .error e ∧ P e := by
  induction as with
  | nil =>
    obtain ⟨_, ha, -⟩ := hfail
    cases ha
  | cons a as ih =>
    rw [List.mapM_cons]
    cases ha : f a with
    | error e => exact ⟨e, rfl, hP a List.mem_cons_self e ha⟩
    | ok b =>
      obtain ⟨a', ha', e', he'⟩ := hfail
      obtain rfl | ha' := List.mem_cons.mp ha'
      · cases ha.symm.trans he'
      · obtain ⟨e, he, hPe⟩ := ih ⟨a', ha', e', he'⟩ fun a ha ↦ hP a (List.mem_cons_of_mem _ ha)
        exact ⟨e, by rw [he]; rfl, hPe⟩

theorem exists_mapM_eq_some {f : α → Option β} (h : ∀ a ∈ as, ∃ b, f a = some b ∧ r a b) :
    ∃ bs, as.mapM f = some bs ∧ List.Forall₂ r as bs := by
  induction as with
  | nil => exact ⟨[], rfl, .nil⟩
  | cons a as ih =>
    obtain ⟨⟨b, hb, hr⟩, htail⟩ := List.forall_mem_cons.mp h
    obtain ⟨bs, hbs, hall⟩ := ih htail
    exact ⟨b :: bs, by simp [hb, hbs], .cons hr hall⟩

theorem mapM_map_eq_pure {m : Type → Type} [Monad m] [LawfulMonad m] {ι α β : Type} {items : List ι}
    {f : ι → α} {g : α → m β} {k : ι → β} (h : ∀ i ∈ items, g (f i) = pure (k i)) :
    (items.map f).mapM g = pure (items.map k) := by
  induction items with
  | nil => rfl
  | cons i items ih =>
    obtain ⟨hi, hitems⟩ := List.forall_mem_cons.mp h
    simp [hi, ih hitems]

theorem mapM_map_eq_some {ι α β : Type} {items : List ι} {f : ι → α} {g : α → Option β} {k : ι → β}
    (h : ∀ i ∈ items, g (f i) = some (k i)) : (items.map f).mapM g = some (items.map k) :=
  mapM_map_eq_pure h

theorem entry_mem_of_lookup {κ : Type} [BEq κ] [LawfulBEq κ] {es : List (κ × α)} {k : κ} {a : α}
    (h : es.lookup k = some a) : (k, a) ∈ es := by
  obtain ⟨before, after, rfl, -⟩ := List.lookup_eq_some_iff.mp h
  simp

theorem mem_of_lookup {κ : Type} [BEq κ] {es : List (κ × α)} {k : κ} {a : α}
    (h : es.lookup k = some a) : ∃ e ∈ es, e.2 = a := by
  induction es with
  | nil => cases h
  | cons e es ih =>
    rw [List.lookup_cons] at h
    split at h
    · cases h
      exact ⟨e, List.mem_cons_self, rfl⟩
    · obtain ⟨e', he', ha⟩ := ih h
      exact ⟨e', List.mem_cons_of_mem e he', ha⟩

/-- What no two elements of a list have in common is true of one of them at most. -/
theorem countP_le_one {p : α → Bool}
    (h : ∀ a bs b cs, a :: (bs ++ b :: cs) <:+ as → p a → p b → False) : as.countP p ≤ 1 := by
  induction as with
  | nil => simp
  | cons a as ih =>
    rw [List.countP_cons]
    split
    · next ha =>
      have hnone : as.countP p = 0 := by
        rw [List.countP_eq_zero]
        intro b hb hpb
        obtain ⟨bs, cs, rfl⟩ := List.append_of_mem hb
        exact h a bs b cs List.suffix_rfl ha hpb
      omega
    · exact ih fun a' bs b cs hsuffix ↦ h a' bs b cs (hsuffix.trans (List.suffix_cons _ _))

end ShaderGraph
