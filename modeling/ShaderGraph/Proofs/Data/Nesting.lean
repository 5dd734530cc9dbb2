import Mathlib.Data.List.Infix

/-!
# Nested sequences

Some elements of a sequence open a level and some close one. In a nested sequence nothing is closed
that the sequence has not opened, so a level that is counted from zero up and down along the sequence
never has to stop at zero.
-/

namespace ShaderGraph

variable {α σ : Type} {opens closes : α → Bool} {as bs : List α} {a : α}

/-- No start of the sequence closes more levels than it opens. -/
def IsNested (opens closes : α → Bool) (as : List α) : Prop :=
  ∀ bs, bs <+: as → bs.countP closes ≤ bs.countP opens

instance : Decidable (IsNested opens closes as) :=
  decidable_of_iff (∀ bs ∈ as.inits, bs.countP closes ≤ bs.countP opens) (by simp [IsNested])

/-- The sequence closes the levels that it opens, and no others. -/
structure IsBalanced (opens closes : α → Bool) (as : List α) : Prop where
  nested : IsNested opens closes as
  closed : as.countP closes = as.countP opens

instance : Decidable (IsBalanced opens closes as) :=
  decidable_of_iff (IsNested opens closes as ∧ as.countP closes = as.countP opens)
    ⟨fun h ↦ ⟨h.1, h.2⟩, fun h ↦ ⟨h.nested, h.closed⟩⟩

theorem countP_concat (p : α → Bool) (as : List α) (a : α) :
    (as ++ [a]).countP p = as.countP p + (p a).toNat := by
  rw [List.countP_append, List.countP_singleton]
  cases p a <;> rfl

namespace IsNested

theorem of_isPrefix (h : IsNested opens closes as) (hbs : bs <+: as) : IsNested opens closes bs :=
  fun cs hcs ↦ h cs (hcs.trans hbs)

theorem init (h : IsNested opens closes (as ++ [a])) : IsNested opens closes as :=
  h.of_isPrefix (List.prefix_append as [a])

section Level

variable {step : σ → α → σ} {level : σ → Nat}

/-- A level that goes up and down with the elements is the number of those that are open. -/
theorem level_foldl (h : IsNested opens closes as)
    (hstep : ∀ s a, level (step s a) = level s + (opens a).toNat - (closes a).toNat) (s : σ) :
    level (as.foldl step s) + as.countP closes = level s + as.countP opens := by
  induction as using List.reverseRecOn with
  | nil => rfl
  | append_singleton as a ih =>
    have hcount := h _ List.prefix_rfl
    have hlevel := ih h.init
    rw [List.foldl_append, List.foldl_cons, List.foldl_nil, hstep]
    rw [countP_concat, countP_concat] at hcount ⊢
    omega

/-- An element that only closes a level finds one that is open. -/
theorem level_pos (h : IsNested opens closes (as ++ [a]))
    (hstep : ∀ s a, level (step s a) = level s + (opens a).toNat - (closes a).toNat) (s : σ)
    (hopens : opens a = false) (hcloses : closes a = true) : 0 < level (as.foldl step s) := by
  have hcount := h _ List.prefix_rfl
  have hlevel := h.init.level_foldl hstep s
  rw [countP_concat, countP_concat, hopens, hcloses, Bool.toNat_true, Bool.toNat_false] at hcount
  omega

end Level

end IsNested

end ShaderGraph
