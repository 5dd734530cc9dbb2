import ShaderGraph.Proofs.Text.Phrase
import ShaderGraph.Source.Variable

/-!
# Phrases that the dialects form

Literals, constructors, calls and conversions are phrases over their parts in every dialect.
-/

namespace ShaderGraph

@[simp]
theorem toString_text (s : String) : toString s = s := rfl

theorem opening_paren : Opening "(" := by decide

theorem closing_paren : Closing ")" := by decide

theorem between_paren : Closing "(" ∧ Opening "(" := by decide

theorem between_comma : Closing ", " ∧ Opening ", " := by decide

theorem between_point : Closing "." ∧ Opening "." := by decide

namespace Phrase

variable {atom : String → Prop} {f x y : String}

theorem empty : Phrase atom "" :=
  .word (by decide)

theorem call (hf : Phrase atom f) (hx : Phrase atom x) : Phrase atom s!"{f}({x})" :=
  .before (.between hf between_paren hx) closing_paren

theorem select (hx : Phrase atom x) (hy : Phrase atom y) : Phrase atom s!"{x}.{y}" :=
  .between hx between_point hy

theorem list {xs : List String} (h : ∀ x ∈ xs, Phrase atom x) :
    Phrase atom (", ".intercalate xs) := by
  induction xs with
  | nil => exact empty
  | cons x xs ih =>
    cases xs with
    | nil => simpa using h x (by simp)
    | cons y ys =>
      rw [String.intercalate_cons_cons]
      exact .between (h x (by simp)) between_comma (ih fun z hz ↦ h z (List.mem_cons_of_mem x hz))

end Phrase

/-! ## Literals -/

section Literals

variable {atom : String → Prop}

theorem phrase_digits {cs : List Char} (h : ∀ c ∈ cs, c.isDigit) :
    Phrase atom (String.ofList cs) :=
  .word (isSyntaxWord_of_digits (by simpa using h))

theorem phrase_toString_nat (k : Nat) : Phrase atom (toString k) :=
  .word (isSyntaxWord_toString k)

theorem phrase_toString_int (i : Int) : Phrase atom (toString i) := by
  cases i with
  | ofNat k => exact phrase_toString_nat k
  | negSucc k =>
    exact .after (m := "-") (by decide) (phrase_toString_nat (k + 1))

namespace Decimal

theorem isDigit_of_mem_digits {d : Decimal} {c : Char} (h : c ∈ d.digits) : c.isDigit :=
  Nat.isDigit_of_mem_toDigits (by omega) (by omega) h

theorem phrase_signed {d : Decimal} {s : String} (h : Phrase atom s) : Phrase atom (d.sign ++ s) := by
  unfold sign
  split
  · exact .after (by decide) h
  · simpa using h

theorem phrase_positional (d : Decimal) : Phrase atom d.positional := by
  unfold positional
  simp only
  split
  · refine phrase_signed (phrase_digits fun c hc ↦ ?_)
    rcases List.mem_append.mp hc with hc | hc
    · exact isDigit_of_mem_digits hc
    · rw [List.eq_of_mem_replicate hc]
      rfl
  · split
    · rw [String.append_assoc, String.append_assoc]
      refine phrase_signed ?_
      rw [← String.append_assoc]
      exact .between (phrase_digits fun c hc ↦ isDigit_of_mem_digits (List.mem_of_mem_take hc))
        between_point (phrase_digits fun c hc ↦ isDigit_of_mem_digits (List.mem_of_mem_drop hc))
    · rw [String.append_assoc]
      refine phrase_signed (.after (m := "0.") (by decide) (phrase_digits fun c hc ↦ ?_))
      rcases List.mem_append.mp hc with hc | hc
      · rw [List.eq_of_mem_replicate hc]
        rfl
      · exact isDigit_of_mem_digits hc

theorem phrase_pointed (d : Decimal) : Phrase atom d.pointed := by
  unfold pointed
  split
  · exact .before d.phrase_positional (m := ".0") (by decide)
  · exact d.phrase_positional

end Decimal

namespace Binary32

theorem phrase_display (x : Binary32) : Phrase atom x.display := by
  unfold display
  split
  · exact .word (by decide)
  · split
    · split
      · exact .after (m := "-") (b := "inf") (by decide) (.word (by decide))
      · exact .word (by decide)
    · exact (x.shortest .upper).phrase_positional

theorem phrase_literal (x : Binary32) : Phrase atom x.literal := by
  unfold literal
  split
  · exact (x.shortest .upper).phrase_pointed
  · exact x.phrase_display

end Binary32

end Literals

/-! ## Dialects -/

namespace Backend

variable {atom : String → Prop} (b : Backend) {t : ValueType}

theorem isSyntaxWord_typeNameOrVoid (t : ValueType) : IsSyntaxWord (b.dialect.typeNameOrVoid t) := by
  cases b <;> cases t <;> decide

theorem isPlainWord_of_typeName? {name : String} (h : b.dialect.typeName? t = some name) :
    IsPlainWord name := by
  have hword := (b.isSyntaxWord_typeNameOrVoid t).1
  rwa [Dialect.typeNameOrVoid, h] at hword

theorem phrase_construct {args : List String} (h : ∀ a ∈ args, Phrase atom a) :
    Phrase atom (b.dialect.construct t args) :=
  .call (.word (b.isSyntaxWord_typeNameOrVoid t)) (.list h)

theorem phrase_splat {expr : String} (h : Phrase atom expr) :
    Phrase atom (b.dialect.splat t expr) := by
  unfold Dialect.splat
  split
  · exact .call (.word (b.isSyntaxWord_typeNameOrVoid t)) h
  · exact .between (.after opening_paren (.word (b.isSyntaxWord_typeNameOrVoid t))) (by decide) h

theorem phrase_scalarLiteral (x : Binary32) : Phrase atom (b.dialect.scalarLiteral t x) := by
  unfold Dialect.scalarLiteral
  split
  · exact x.phrase_literal
  · exact b.phrase_splat x.phrase_literal

theorem phrase_vectorLiteral (components : List Binary32) :
    Phrase atom (b.dialect.vectorLiteral components) := by
  unfold Dialect.vectorLiteral
  split
  · exact Binary32.phrase_literal _
  · exact Binary32.phrase_literal _
  · refine b.phrase_construct fun a ha ↦ ?_
    obtain ⟨x, -, rfl⟩ := List.mem_map.mp ha
    exact x.phrase_literal

end Backend

theorem isSyntaxWord_firstComponents (k : Nat) : IsSyntaxWord (Variable.firstComponents k) := by
  have hcases : k = 0 ∨ k = 1 ∨ k = 2 ∨ k = 3 ∨ 4 ≤ k := by omega
  obtain rfl | rfl | rfl | rfl | hk := hcases
  all_goals first | decide | skip
  rw [Variable.firstComponents, List.take_of_length_le hk]
  decide

/-- A conversion is a phrase over the name of the variable. -/
theorem Variable.phrase_cast {v : Variable} {t : ValueType} {b : Backend} {text : String}
    {atom : String → Prop} (h : v.cast t b.dialect = .ok text) (hv : Phrase atom v.name) :
    Phrase atom text := by
  unfold Variable.cast at h
  split at h
  · cases h
    exact hv
  · split at h
    · split at h
      · cases h
      · split at h
        · cases h
          exact b.phrase_splat hv
        · split at h
          · cases h
            exact .select hv (.word (isSyntaxWord_firstComponents _))
          · cases h
            refine b.phrase_construct fun a ha ↦ ?_
            rcases List.mem_cons.mp ha with rfl | ha
            · exact hv
            · rw [List.eq_of_mem_replicate ha]
              exact .between (.word (s := "0") (by decide)) between_point
                (.word (s := "0") (by decide))
    · cases h

/-! ## Conversions and literals are quiet -/

section Quiet

variable {names : List String}

theorem Variable.quiet_cast {v : Variable} {t : ValueType} {text : String} (b : Backend)
    (h : v.cast t b.dialect = .ok text) (hv : Quiet names v.name) : Quiet names text := by
  have hself : Phrase (· = v.name) v.name := .atom rfl
  refine (phrase_cast h hself).quiet ?_
  rintro _ rfl
  exact hv

theorem Backend.quiet_scalarLiteral (b : Backend) (t : ValueType) (x : Binary32) :
    Quiet names (b.dialect.scalarLiteral t x) := by
  have hclosed : Phrase (fun _ ↦ False) (b.dialect.scalarLiteral t x) := b.phrase_scalarLiteral x
  exact hclosed.quiet (by simp)

theorem Backend.quiet_vectorLiteral (b : Backend) (components : List Binary32) :
    Quiet names (b.dialect.vectorLiteral components) := by
  have hclosed : Phrase (fun _ ↦ False) (b.dialect.vectorLiteral components) :=
    b.phrase_vectorLiteral components
  exact hclosed.quiet (by simp)

end Quiet

end ShaderGraph
