import ShaderGraph.Proofs.Emission.Steps

/-!
# Scopes and assignments of a source

A body is read token by token. Braces open and close blocks. A temporary right after the name of a
type is a declaration: it is visible to the end of its block, or in the block of the loop if it stands
in a loop header. Every other occurrence of a temporary has to be in the reach of a declaration.
-/

namespace ShaderGraph

/-- Words that name types. -/
def Dialect.typeWords (d : Dialect) : List String :=
  (Labelled.all : List ValueType).filterMap d.typeName?

/-- What is known at a place of a source. -/
structure Scope where
  /-- The tokens before the place, the latest first. -/
  before : List Token := []
  /-- Temporaries declared in a loop header whose block is not open yet. -/
  header : List String := []
  /-- Temporaries declared in the blocks around the place, the innermost block first. -/
  blocks : List (List String) := [[]]
  /-- Temporaries declared so far, the latest first. -/
  declared : List String := []

namespace Scope

def visible (σ : Scope) : List String :=
  σ.header ++ σ.blocks.flatten

def followsType (types : List String) (σ : Scope) : Bool :=
  match σ.before with
  | .word w :: _ => types.contains w
  | _ => false

def inHeader (σ : Scope) : Bool :=
  match σ.before with
  | _ :: .mark "(" :: .word "for" :: _ => true
  | _ => false

def openBlock (σ : Scope) : Scope :=
  { σ with header := [], blocks := σ.header :: σ.blocks }

/-- Closes the innermost block. The body itself is no block that can be closed. -/
def closeBlock (σ : Scope) : Option Scope :=
  match σ.blocks with
  | _ :: b :: bs => some { σ with blocks := b :: bs }
  | _ => none

def declare (σ : Scope) (name : String) : Scope :=
  let σ := { σ with declared := name :: σ.declared }
  if σ.inHeader then { σ with header := name :: σ.header }
  else { σ with blocks := (name :: σ.blocks.headD []) :: σ.blocks.tail }

def pass (t : Token) (σ : Scope) : Scope :=
  { σ with before := t :: σ.before }

/-- Reads a token. The reading fails at a temporary that is out of reach of every declaration, and at
a brace that closes no block. -/
def read (types : List String) (σ : Scope) (t : Token) : Option Scope :=
  Option.map (pass t) <|
    match t with
    | .mark m =>
      if m = "\x7b" then some σ.openBlock
      else if m = "\x7d" then σ.closeBlock
      else some σ
    | .word w =>
      if !isTemporary w then some σ
      else if σ.followsType types then some (σ.declare w)
      else if w ∈ σ.visible then some σ
      else none

def readAll (types : List String) (ts : List Token) (σ : Scope) : Option Scope :=
  ts.foldlM (read types) σ

end Scope

/-- The temporaries that a body declares, in the order of their declarations. There are none if some
temporary occurs outside of the reach of its declarations or the blocks do not match. -/
def declarations? (types : List String) (body : String) : Option (List String) :=
  match Scope.readAll types (tokens body) {} with
  | some σ => if σ.blocks.length = 1 then some σ.declared.reverse else none
  | none => none

/-- The tokens after a word assign to it. -/
def assigns : List Token → Bool
  | .mark m :: ts =>
    m = "=" || (["+", "-", "*", "/"].contains m && ts.head? = some (.mark "="))
  | _ => false

/-- The words that are assigned, each with the number of blocks around it. -/
def assignments : Nat → List Token → List (Nat × String)
  | _, [] => []
  | depth, .mark m :: ts =>
    if m = "\x7b" then assignments (depth + 1) ts
    else if m = "\x7d" then assignments (depth - 1) ts
    else assignments depth ts
  | depth, .word w :: ts =>
    if assigns ts then (depth, w) :: assignments depth ts else assignments depth ts

/-! ## Numbers of declarations and assignments -/

namespace Scope

variable {types : List String} {σ τ : Scope}

/-- A token declares one temporary at most. -/
theorem length_declared_read {t : Token} (h : read types σ t = some τ) :
    τ.declared.length ≤ σ.declared.length + 1 := by
  obtain ⟨ρ, hread, rfl⟩ := Option.map_eq_some_iff.mp h
  have hclose (hclosed : σ.closeBlock = some ρ) : ρ.declared = σ.declared := by
    unfold closeBlock at hclosed
    split at hclosed
    · cases hclosed
      rfl
    · cases hclosed
  simp only [pass]
  split at hread
  · split at hread
    · cases hread
      exact Nat.le_succ _
    · split at hread
      · rw [hclose hread]
        exact Nat.le_succ _
      · cases hread
        exact Nat.le_succ _
  · split_ifs at hread <;> cases hread
    · exact Nat.le_succ _
    · unfold declare
      dsimp only
      split <;> exact Nat.le_refl _
    · exact Nat.le_succ _

theorem length_declared_readAll {ts : List Token} (h : readAll types ts σ = some τ) :
    τ.declared.length ≤ σ.declared.length + ts.length := by
  induction ts generalizing σ with
  | nil =>
    cases h
    exact Nat.le_refl _
  | cons t ts ih =>
    obtain ⟨ρ, hread, hrest⟩ := Option.bind_eq_some_iff.mp h
    have hfirst := length_declared_read hread
    have hall := ih hrest
    rw [List.length_cons]
    omega

end Scope

/-- There are no more declarations than characters. -/
theorem length_of_declarations? {types names : List String} {body : String}
    (h : declarations? types body = some names) : names.length ≤ body.length := by
  unfold declarations? at h
  split at h
  · next σ hread =>
    have hdeclared := Scope.length_declared_readAll hread
    split at h
    · cases h
      rw [List.length_reverse]
      exact (Nat.le_trans hdeclared (by simp)).trans (length_tokens_le body)
    · cases h
  · cases h

theorem length_assignments_le (depth : Nat) (ts : List Token) :
    (assignments depth ts).length ≤ ts.length := by
  fun_induction assignments depth ts <;> grind

/-! ## Tokens that declare nothing -/

namespace Token

/-- Tokens that neither delimit a block nor assign and among which every temporary is one of `Γ`. -/
structure Inert (Γ : List String) (ts : List Token) : Prop where
  harmless : ∀ t ∈ ts, t.Harmless Γ
  separated : ts.IsChain Separated

theorem Inert.mono {Γ Δ : List String} {ts : List Token} (h : Inert Γ ts) (hsub : Γ ⊆ Δ) :
    Inert Δ ts :=
  ⟨fun t ht ↦ (h.harmless t ht).mono hsub, h.separated⟩

/-- The token delimits no block, and if it is a temporary it is one of `Γ`. -/
def Reaches (Γ : List String) : Token → Prop
  | word w => ShaderGraph.isTemporary w → w ∈ Γ
  | mark m => m ≠ "\x7b" ∧ m ≠ "\x7d"

theorem Harmless.reaches {Γ : List String} {t : Token} (h : t.Harmless Γ) : t.Reaches Γ := by
  cases t with
  | word w => exact h
  | mark m =>
    simp only [Harmless, List.mem_cons, not_or] at h
    exact ⟨h.1, h.2.1⟩

/-- Tokens that delimit no block and among which every temporary is one of `Γ`. -/
structure Scoped (Γ : List String) (ts : List Token) : Prop where
  reaches : ∀ t ∈ ts, t.Reaches Γ
  separated : ts.IsChain Separated

theorem Inert.scoped {Γ : List String} {ts : List Token} (h : Inert Γ ts) : Scoped Γ ts :=
  ⟨fun t ht ↦ (h.harmless t ht).reaches, h.separated⟩

namespace Scoped

variable {Γ : List String} {m : String} {ts : List Token}

theorem cons_mark (hm : m ≠ "\x7b" ∧ m ≠ "\x7d") (h : Scoped Γ ts) : Scoped Γ (mark m :: ts) where
  reaches t ht := by
    rcases List.mem_cons.mp ht with rfl | ht
    · exact hm
    · exact h.reaches t ht
  separated := List.isChain_cons.mpr ⟨fun u _ ↦ by simp [Separated, isWord], h.separated⟩

theorem append_mark (hm : m ≠ "\x7b" ∧ m ≠ "\x7d") (h : Scoped Γ ts) :
    Scoped Γ (ts ++ [mark m]) where
  reaches t ht := by
    rcases List.mem_append.mp ht with ht | ht
    · exact h.reaches t ht
    · obtain rfl := List.mem_singleton.mp ht
      exact hm
  separated := h.separated.append (List.isChain_singleton _) fun u _ v hv ↦ by
    obtain rfl : mark m = v := by simpa using hv
    simp [Separated, isTemporary]

/-- A word in front of a mark. -/
theorem cons_word {w : String} (hw : ShaderGraph.isTemporary w → w ∈ Γ) (h : Scoped Γ (mark m :: ts)) :
    Scoped Γ (word w :: mark m :: ts) where
  reaches t ht := by
    rcases List.mem_cons.mp ht with rfl | ht
    · exact hw
    · exact h.reaches t ht
  separated := List.isChain_cons_cons.mpr ⟨by simp [Separated, isTemporary], h.separated⟩

end Scoped

end Token

theorem Quiet.inert {Γ : List String} {s : String} (h : Quiet Γ s) : Token.Inert Γ (tokens s) :=
  ⟨h.harmless, h.separated⟩

namespace Scope

variable {types Γ : List String} {σ : Scope} {t : Token} {ts us : List Token}

theorem readAll_append :
    readAll types (ts ++ us) σ = (readAll types ts σ).bind (readAll types us) :=
  List.foldlM_append

theorem readAll_cons : readAll types (t :: ts) σ = (read types σ t).bind (readAll types ts) :=
  List.foldlM_cons

/-- The latest token is no word, so that no declaration follows. -/
def AfterMark (σ : Scope) : Prop :=
  ∀ t ∈ σ.before.head?, t.isWord = false

theorem followsType_of_afterMark (h : σ.AfterMark) : σ.followsType types = false := by
  unfold followsType
  split
  · next w _ hbefore =>
    have hword := h (.word w) (by simp [hbefore])
    cases hword
  · rfl

theorem read_reaches (types : List String) (ht : t.Reaches Γ) (hΓ : Γ ⊆ σ.visible)
    (hseparated : ∀ u ∈ σ.before.head?, u.Separated t) :
    read types σ t = some (σ.pass t) := by
  cases t with
  | mark m => simp [read, ht.1, ht.2]
  | word w =>
    by_cases hw : isTemporary w
    · have hafter : σ.AfterMark := by
        intro u hu
        have hnot := hseparated u hu
        cases hword : u.isWord with
        | false => rfl
        | true => exact absurd ⟨hword, hw⟩ hnot
      simp [read, hw, followsType_of_afterMark hafter, hΓ (ht hw)]
    · simp [read, hw]

/-- Tokens that are in scope are passed over. -/
theorem readAll_scoped (h : Token.Scoped Γ ts) (hΓ : Γ ⊆ σ.visible)
    (hborder : ∀ u ∈ σ.before.head?, ∀ t ∈ ts.head?, u.Separated t) :
    readAll types ts σ = some { σ with before := ts.reverse ++ σ.before } := by
  induction ts generalizing σ with
  | nil => rfl
  | cons t ts ih =>
    have hread := read_reaches types (h.reaches t List.mem_cons_self) hΓ
      fun u hu ↦ hborder u hu t (by simp)
    have hrest : Token.Scoped Γ ts :=
      ⟨fun u hu ↦ h.reaches u (List.mem_cons_of_mem t hu), h.separated.tail⟩
    have hnext : ∀ u ∈ (σ.pass t).before.head?, ∀ v ∈ ts.head?, u.Separated v := by
      intro u hu v hv
      obtain rfl : t = u := by simpa [pass] using hu
      obtain ⟨us, rfl⟩ : ∃ us, ts = v :: us := by
        cases ts with
        | nil => cases hv
        | cons w us => exact ⟨us, by simp_all⟩
      exact (List.isChain_cons_cons.mp h.separated).1
    rw [readAll_cons, hread, Option.bind_some, ih hrest (by exact hΓ) hnext]
    simp [pass]

end Scope

section Assignments

variable {Γ : List String} {ts us : List Token}

theorem assigns_append_of_harmless {t : Token} (h : Token.Harmless Γ t)
    (hus : us.head? ≠ some (.mark "=")) : assigns (t :: us) = false := by
  cases t with
  | word w => rfl
  | mark m =>
    simp only [Token.Harmless, List.mem_cons, List.not_mem_nil, or_false, not_or] at h
    simp [assigns, h.2.2, hus]

/-- Tokens that assign nothing are passed over. -/
theorem assignments_harmless (h : ∀ t ∈ ts, t.Harmless Γ)
    (hend : (∀ t ∈ ts.getLast?, t.isWord = false) ∨ assigns us = false)
    (hus : us.head? ≠ some (.mark "=")) (depth : Nat) :
    assignments depth (ts ++ us) = assignments depth us := by
  induction ts with
  | nil => rfl
  | cons t ts ih =>
    have hrest : ∀ u ∈ ts, u.Harmless Γ := fun u hu ↦ h u (List.mem_cons_of_mem t hu)
    have ih := ih hrest (hend.imp_left fun hlast u hu ↦ by
      cases ts with
      | nil => cases hu
      | cons v vs => exact hlast u (by simpa using hu))
    have ht := h t List.mem_cons_self
    cases t with
    | mark m =>
      simp only [Token.Harmless, List.mem_cons, List.not_mem_nil, or_false, not_or] at ht
      rw [List.cons_append, assignments, if_neg ht.1, if_neg ht.2.1, ih]
    | word w =>
      have hnot : assigns (ts ++ us) = false := by
        cases ts with
        | nil =>
          obtain hlast | hnot := hend
          · cases hlast (.word w) rfl
          · exact hnot
        | cons u ts =>
          refine assigns_append_of_harmless (hrest u List.mem_cons_self) ?_
          cases ts with
          | nil => exact hus
          | cons v vs =>
            rintro heq
            obtain rfl : v = .mark "=" := by simpa using heq
            have hv := hrest (.mark "=") (by simp)
            simp [Token.Harmless] at hv
      rw [List.cons_append, assignments, hnot]
      exact ih

end Assignments

end ShaderGraph
