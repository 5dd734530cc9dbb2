import Mathlib.Tactic.NormNum
import ShaderGraph.Uuid

/-!
# Hexadecimal text is read back

Digits denote the number that they are written for, of a fixed width and without leading zeros. So
the text of an identifier is read as that identifier.
-/

namespace ShaderGraph

/-! ## Digits -/

theorem hexValue?_hexDigit {n : Nat} (hn : n < 16) : hexValue? (hexDigit n) = some n := by
  decide +revert

theorem hexValue?_digitChar {n : Nat} (hn : n < 16) : hexValue? (Nat.digitChar n) = some n := by
  decide +revert

/-- A digit after digits of which the value is known. -/
theorem ofHexDigits?_append_singleton {cs : List Char} {c : Char} {n d : Nat}
    (hcs : ofHexDigits? cs = some n) (hc : hexValue? c = some d) :
    ofHexDigits? (cs ++ [c]) = some (16 * n + d) := by
  unfold ofHexDigits? at hcs ⊢
  rw [List.foldlM_append, hcs]
  simp [hc]

theorem length_hexDigits (width n : Nat) : (hexDigits width n).length = width := by
  induction width generalizing n with
  | zero => rfl
  | succ width ih => rw [hexDigits, List.length_append, ih, List.length_singleton]

theorem ofHexDigits?_hexDigits {width n : Nat} (hn : n < 16 ^ width) :
    ofHexDigits? (hexDigits width n) = some n := by
  induction width generalizing n with
  | zero =>
    obtain rfl : n = 0 := by simpa using hn
    rfl
  | succ width ih =>
    have hquotient : n / 16 < 16 ^ width := by
      rw [Nat.div_lt_iff_lt_mul (by decide), ← pow_succ]
      exact hn
    rw [hexDigits, ofHexDigits?_append_singleton (ih hquotient)
      (hexValue?_hexDigit (Nat.mod_lt n (by decide))), Nat.div_add_mod]

theorem ofHexDigits?_toDigits (n : Nat) : ofHexDigits? (Nat.toDigits 16 n) = some n := by
  induction n using Nat.strongRecOn with
  | ind n ih =>
    obtain hn | hn := Nat.lt_or_ge n 16
    · rw [Nat.toDigits_of_lt_base hn]
      simp [ofHexDigits?, hexValue?_digitChar hn]
    · rw [Nat.toDigits_of_base_le (by decide) hn, ofHexDigits?_append_singleton
        (ih (n / 16) (Nat.div_lt_self (by omega) (by decide)))
        (hexValue?_digitChar (Nat.mod_lt n (by decide))), Nat.div_add_mod]

theorem hexValue?_of_mem_toDigits {n : Nat} {c : Char} (hc : c ∈ Nat.toDigits 16 n) :
    (hexValue? c).isSome := by
  induction n using Nat.strongRecOn with
  | ind n ih =>
    obtain hn | hn := Nat.lt_or_ge n 16
    · rw [Nat.toDigits_of_lt_base hn, List.mem_singleton] at hc
      rw [hc, hexValue?_digitChar hn]
      rfl
    · rw [Nat.toDigits_of_base_le (by decide) hn] at hc
      obtain hc | hc := List.mem_append.mp hc
      · exact ih (n / 16) (Nat.div_lt_self (by omega) (by decide)) hc
      · rw [List.mem_singleton.mp hc, hexValue?_digitChar (Nat.mod_lt n (by decide))]
        rfl

/-! ## Identifiers -/

namespace Uuid

theorem take_append_drop_drop (ds : List Char) (k n : Nat) :
    (ds.drop k).take n ++ ds.drop (k + n) = ds.drop k := by
  rw [← List.drop_drop, List.take_append_drop]

/-- Digits are recovered from their groups. -/
theorem ofGroups?_hyphenate {ds : List Char} (hlength : ds.length = 32) :
    ofGroups? (hyphenate ds) = ofDigits? ds := by
  have hgroups : (hyphenate ds).take 8 ++ ((hyphenate ds).drop 9).take 4 ++
      ((hyphenate ds).drop 14).take 4 ++ ((hyphenate ds).drop 19).take 4 ++
      (hyphenate ds).drop 24 = ds := by
    simp [hyphenate, List.drop_append, hlength, List.drop_take]
    rw [take_append_drop_drop ds 16 4, take_append_drop_drop ds 12 4, take_append_drop_drop ds 8 4,
      List.take_append_drop]
  rw [ofGroups?]
  simp only [hgroups, if_true]

theorem length_hyphenate {ds : List Char} (hlength : ds.length = 32) :
    (hyphenate ds).length = 36 := by
  simp [hyphenate, hlength]

theorem ofText?_text (u : Uuid) : ofText? u.text = some u := by
  have hlength : (hexDigits 32 u.value.toNat).length = 32 := length_hexDigits _ _
  have hvalue : ofHexDigits? (hexDigits 32 u.value.toNat) = some u.value.toNat :=
    ofHexDigits?_hexDigits (lt_of_lt_of_le u.value.isLt (by norm_num))
  have hdigits : ofDigits? (hexDigits 32 u.value.toNat) = some u := by
    rw [ofDigits?, if_pos hlength, hvalue]
    simp
  simp only [ofText?, text, String.toList_ofList, length_hyphenate hlength]
  rw [if_neg (by decide), if_pos trivial, ofGroups?_hyphenate hlength, hdigits]

end Uuid

end ShaderGraph
