import Mathlib.Data.List.Nodup
import Mathlib.Data.List.Perm.Subperm
import ShaderGraph.Proofs.Data.Maps
import ShaderGraph.Proofs.Emission.Declarations
import ShaderGraph.Proofs.Scope.Names

/-!
# Entries of the tables

The tables of uniforms and samplers list their entries in the order of first use. An entry that is
entered again keeps its place and gains at most a stage, and a sampler that is new gets a name that
no other has.
-/

namespace ShaderGraph

/-! ## Stage lists -/

/-- The list names at least one stage, and each at most once, in the order of the pipeline. -/
structure IsStageList (stages : List ShaderStage) : Prop where
  nonempty : stages ≠ []
  sublist : stages.Sublist [.vertex, .pixel]

theorem mem_insertStage {stage other : ShaderStage} {stages : List ShaderStage} :
    other ∈ insertStage stage stages ↔ other = stage ∨ other ∈ stages := by
  unfold insertStage
  split
  · next h =>
    constructor
    · exact .inr
    · rintro (rfl | hother)
      · exact h
      · exact hother
  · rw [List.mem_filter]
    cases other <;> simp

theorem insertStage_of_mem {stage : ShaderStage} {stages : List ShaderStage} (h : stage ∈ stages) :
    insertStage stage stages = stages :=
  if_pos h

theorem isStageList_singleton (stage : ShaderStage) : IsStageList [stage] :=
  ⟨by simp, by cases stage <;> simp⟩

theorem IsStageList.insertStage {stages : List ShaderStage} (h : IsStageList stages)
    (stage : ShaderStage) : IsStageList (insertStage stage stages) where
  nonempty hnil := by
    have hmem : stage ∈ ShaderGraph.insertStage stage stages := mem_insertStage.mpr (.inl rfl)
    rw [hnil] at hmem
    cases hmem
  sublist := by
    unfold ShaderGraph.insertStage
    split
    · exact h.sublist
    · exact List.filter_sublist

/-! ## Insertion -/

namespace OrderedMap

variable {κ α : Type} [DecidableEq κ] {m : OrderedMap κ α} {k : κ} {a b : α}

theorem get?_eq_none_iff : m.get? k = none ↔ k ∉ m.keys := by
  rw [get?, List.lookup_eq_none_iff, keys, List.mem_map]
  simp only [bne_iff_ne, ne_eq, not_exists, not_and]
  exact forall₂_congr fun e _ ↦ not_congr eq_comm

theorem values_insert_of_get?_none (h : m.get? k = none) :
    (m.insert k a).values = m.values ++ [a] := by
  rw [values, OrderedMap.insert, insertEntry_of_notMem (get?_eq_none_iff.mp h), List.map_append]
  rfl

/-- An insertion under a key that is present replaces one value in its place. -/
theorem exists_values_insert (h : m.get? k = some b) :
    ∃ as bs, m.values = as ++ b :: bs ∧ ∀ a, (m.insert k a).values = as ++ a :: bs := by
  obtain ⟨es⟩ := m
  unfold get? at h
  unfold values OrderedMap.insert
  induction es with
  | nil => cases h
  | cons e es ih =>
    obtain ⟨k₀, a₀⟩ := e
    by_cases hk : k₀ = k
    · subst hk
      obtain rfl : a₀ = b := by simpa using h
      exact ⟨[], es.map Prod.snd, rfl, fun a ↦ by simp [insertEntry]⟩
    · have hne : (k == k₀) = false := by simpa using Ne.symm hk
      rw [List.lookup_cons, hne] at h
      obtain ⟨as, bs, hvalues, hinsert⟩ := ih h
      exact ⟨a₀ :: as, bs, by simp [hvalues], fun a ↦ by simpa [insertEntry, hk] using hinsert a⟩

theorem insert_of_get? (h : m.get? k = some a) : m.insert k a = m := by
  obtain ⟨es⟩ := m
  unfold get? at h
  have hentries : insertEntry k a es = es := by
    induction es with
    | nil => cases h
    | cons e es ih =>
      obtain ⟨k₀, a₀⟩ := e
      by_cases hk : k₀ = k
      · subst hk
        obtain rfl : a₀ = a := by simpa using h
        simp [insertEntry]
      · have hne : (k == k₀) = false := by simpa using Ne.symm hk
        rw [List.lookup_cons, hne] at h
        rw [insertEntry, if_neg hk, ih h]
  rw [OrderedMap.insert, hentries]

end OrderedMap

/-! ## Names of samplers -/

namespace EmitM

theorem samplerName_injective (base : String) : Function.Injective (samplerName base) := by
  have hlist (k : Nat) : (samplerName base (k + 1)).toList =
      base.toList ++ '_' :: Nat.toDigits 10 (k + 1) := by
    have htext : samplerName base (k + 1) = base ++ "_" ++ toString (k + 1) := rfl
    rw [htext, String.toList_append, String.toList_append, Nat.toString_eq_repr, Nat.toList_repr,
      List.append_assoc]
    rfl
  intro j k h
  have hlists := congrArg String.toList h
  cases j <;> cases k
  · rfl
  · rw [hlist] at hlists
    simp [samplerName] at hlists
  · rw [hlist] at hlists
    simp [samplerName] at hlists
  · next j k =>
    rw [hlist, hlist, List.append_cancel_left_eq, List.cons.injEq] at hlists
    have hdigits := congrArg (Nat.ofDigitChars 10 · 0) hlists.2
    simpa [Nat.ofDigitChars_ten_toDigits] using hdigits

/-- A name that is chosen for a sampler is that of no other sampler. -/
theorem get?_freshSamplerName (samplers : OrderedMap String SamplerDeclaration) (base : String) :
    samplers.get? (freshSamplerName samplers base) = none := by
  rw [freshSamplerName]
  cases hfind : ((List.range (samplers.size + 1)).map (samplerName base)).find? fun name ↦
      !samplers.contains name with
  | some name =>
    have hfresh := List.find?_some hfind
    simpa [OrderedMap.contains] using hfresh
  | none =>
    -- More names are tried than there are keys.
    have hsubset : (List.range (samplers.size + 1)).map (samplerName base) ⊆ samplers.keys := by
      intro name hname
      have hcontains := List.find?_eq_none.mp hfind name hname
      by_contra hkey
      simp [OrderedMap.contains, OrderedMap.get?_eq_none_iff.mpr hkey] at hcontains
    have hnodup := (List.nodup_map_iff (samplerName_injective base)).mpr
      (List.nodup_range (n := samplers.size + 1))
    have hlength := (List.Nodup.subperm hnodup hsubset).length_le
    simp only [OrderedMap.keys, OrderedMap.size, List.length_map, List.length_range] at hlength
    omega

/-- The name of a new sampler is the base that it was chosen for with a number at most. -/
theorem exists_freshSamplerName (samplers : OrderedMap String SamplerDeclaration) (base : String) :
    ∃ rest, IsWord rest ∧ freshSamplerName samplers base = base ++ rest := by
  have hname (k : Nat) : ∃ rest, IsWord rest ∧ samplerName base k = base ++ rest := by
    cases k with
    | zero => exact ⟨"", by decide, by simp [samplerName]⟩
    | succ k =>
      have hunderscore : IsWord "_" := by decide
      exact ⟨"_" ++ toString (k + 1), isWord_append hunderscore (isPlainWord_toString (k + 1)).1,
        String.append_assoc⟩
  rw [freshSamplerName]
  cases hfind : ((List.range (samplers.size + 1)).map (samplerName base)).find? fun name ↦
      !samplers.contains name with
  | none => exact ⟨"", by decide, by simp⟩
  | some name =>
    obtain ⟨k, -, rfl⟩ := List.mem_map.mp (List.mem_of_find?_eq_some hfind)
    exact hname k

end EmitM

end ShaderGraph
