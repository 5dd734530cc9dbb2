import ShaderGraph.Proofs.Emission.Steps
import ShaderGraph.Proofs.Text.Syntax

/-!
# Names of temporaries and of interpolator slots

Numbered names are words, they are told apart by their numbers, and no name of an interpolator slot is
that of a temporary.
-/

namespace ShaderGraph

/-- Whether a word has the form of the name of an interpolator slot. -/
def isInterpolatorName (s : String) : Bool :=
  match s.toList with
  | 'A' :: 't' :: 't' :: 'r' :: c :: cs => (c :: cs).all Char.isDigit
  | _ => false

theorem toList_temporary (k : Nat) : (temporary k).toList = 'v' :: Nat.toDigits 10 k := by
  rw [temporary, String.toList_append, toString_text, Nat.toString_eq_repr, Nat.toList_repr]
  rfl

theorem toList_interpolatorName (slot : Nat) :
    (interpolatorName slot).toList = 'A' :: 't' :: 't' :: 'r' :: Nat.toDigits 10 slot := by
  rw [interpolatorName, String.toList_append, toString_text, Nat.toString_eq_repr, Nat.toList_repr]
  rfl

theorem isDigit_toDigits {k : Nat} {c : Char} (h : c ∈ Nat.toDigits 10 k) : c.isDigit :=
  Nat.isDigit_of_mem_toDigits (by omega) (by omega) h

theorem exists_digits (k : Nat) :
    ∃ c cs, Nat.toDigits 10 k = c :: cs ∧ ∀ d ∈ c :: cs, d.isDigit := by
  cases h : Nat.toDigits 10 k with
  | nil => exact absurd h Nat.toDigits_ne_nil
  | cons c cs => exact ⟨c, cs, rfl, fun d hd ↦ isDigit_toDigits (k := k) (by rwa [h])⟩

theorem isTemporary_temporary (k : Nat) : isTemporary (temporary k) := by
  obtain ⟨c, cs, hdigits, hall⟩ := exists_digits k
  rw [isTemporary, toList_temporary, hdigits]
  simpa using hall

theorem isWord_temporary (k : Nat) : IsWord (temporary k) := by
  intro c hc
  rw [toList_temporary] at hc
  rcases List.mem_cons.mp hc with rfl | hc
  · rfl
  · exact glyphOf_of_isDigit (isDigit_toDigits hc)

theorem temporary_ne_empty (k : Nat) : temporary k ≠ "" := by
  intro h
  have hlist := toList_temporary k
  rw [h] at hlist
  cases hlist

theorem temporary_injective : Function.Injective temporary := by
  intro j k h
  have hlists := congrArg String.toList h
  rw [toList_temporary, toList_temporary] at hlists
  rw [← Nat.ofDigitChars_ten_toDigits (n := j), (List.cons.inj hlists).2,
    Nat.ofDigitChars_ten_toDigits]

theorem isInterpolatorName_interpolatorName (slot : Nat) :
    isInterpolatorName (interpolatorName slot) := by
  obtain ⟨c, cs, hdigits, hall⟩ := exists_digits slot
  rw [isInterpolatorName, toList_interpolatorName, hdigits]
  simpa using hall

theorem isWord_interpolatorName (slot : Nat) : IsWord (interpolatorName slot) := by
  intro c hc
  rw [toList_interpolatorName] at hc
  simp only [List.mem_cons] at hc
  obtain rfl | rfl | rfl | rfl | hc := hc
  any_goals rfl
  exact glyphOf_of_isDigit (isDigit_toDigits hc)

theorem isTemporary_interpolatorName (slot : Nat) :
    isTemporary (interpolatorName slot) = false := by
  rw [isTemporary, toList_interpolatorName]
  rfl

theorem interpolatorName_ne_empty (slot : Nat) : interpolatorName slot ≠ "" := by
  intro h
  have hlist := toList_interpolatorName slot
  rw [h] at hlist
  cases hlist

theorem isInterpolatorName_of_isTemporary {s : String} (h : isTemporary s) :
    isInterpolatorName s = false := by
  unfold isTemporary at h
  split at h
  · next hs =>
    rw [isInterpolatorName, hs]
    rfl
  · cases h

theorem isTemporary_of_toList {s : String} {c : Char} {cs : List Char} (hs : s.toList = c :: cs)
    (hc : c ≠ 'v') : isTemporary s = false := by
  unfold isTemporary
  split
  · next hs' =>
    rw [hs] at hs'
    exact absurd (List.cons.inj hs').1 hc
  · rfl

theorem isInterpolatorName_of_toList {s : String} {c : Char} {cs : List Char}
    (hs : s.toList = c :: cs) (hc : c ≠ 'A') : isInterpolatorName s = false := by
  unfold isInterpolatorName
  split
  · next hs' =>
    rw [hs] at hs'
    exact absurd (List.cons.inj hs').1 hc
  · rfl

theorem isWord_append {a b : String} (ha : IsWord a) (hb : IsWord b) : IsWord (a ++ b) := by
  intro c hc
  rw [String.toList_append, List.mem_append] at hc
  exact hc.elim (ha c) (hb c)

end ShaderGraph
