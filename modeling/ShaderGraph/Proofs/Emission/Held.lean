import Mathlib.Tactic.Simps.Basic
import ShaderGraph.Proofs.Text.Syntax
import ShaderGraph.Source.Stage

/-!
# What an emitter has at hand

An emitter writes values and their conversions into expressions without parentheses around them. The texts
that it forms are put together from what it has at hand and from fixed syntax. Operators that apply to what
stands right next to them, a minus sign, a selection of components or a subscript, it writes only at values
and conversions that have such an operator by their type, and subscripts at arrays.
-/

namespace ShaderGraph

/-! ## Operators -/

def componentNames : List Char :=
  ['x', 'y', 'z', 'w']

/-- What is applied to an operand without parentheses around it. -/
inductive Operator
  | negation
  /-- A selection of components. -/
  | selection (field : String)
  /-- A row or column of a matrix. -/
  | axis (index : Nat)
deriving DecidableEq

namespace Operator

/-- The text of the operator and its operand. -/
def apply : Operator → String → String
  | negation, text => s!"-{text}"
  | selection field, text => s!"{text}.{field}"
  | axis index, text => s!"{text}[{index}]"

/-- The operator is meant for values of the type, or of a wider type of the same sort. -/
def IsMeantFor : Operator → ValueType → Prop
  | negation, t => t.isNumeric
  | selection field, t =>
    t.isVector ∧ t ≠ .scalar ∧ field ≠ "" ∧ ∀ c ∈ field.toList, c ∈ componentNames
  | axis index, t => t = .matrix4 ∧ index < 4

/-- The operator is defined for values of the type: what it selects is there. -/
def IsDefinedFor (op : Operator) (t : ValueType) : Prop :=
  op.IsMeantFor t ∧ ∀ field, op = selection field →
    ∀ c ∈ field.toList, c ∈ componentNames.take (t.components?.getD 1)

theorem isDefinedFor_negation {t : ValueType} (h : t.isNumeric) : negation.IsDefinedFor t :=
  ⟨h, fun _ hfield ↦ by cases hfield⟩

theorem isDefinedFor_axis {index : Nat} (h : index < 4) : (axis index).IsDefinedFor .matrix4 :=
  ⟨⟨rfl, h⟩, fun _ hfield ↦ by cases hfield⟩

/-- A selection is defined by the letters of the components that the type has. -/
theorem isDefinedFor_selection {field : String} {t : ValueType} (hvector : t.isVector)
    (hwide : t ≠ .scalar) (hne : field ≠ "")
    (hfield : ∀ c ∈ field.toList, c ∈ componentNames.take (t.components?.getD 1)) :
    (selection field).IsDefinedFor t :=
  ⟨⟨hvector, hwide, hne, fun c hc ↦ List.mem_of_mem_take (hfield c hc)⟩, fun _ h ↦ by
    cases h
    exact hfield⟩

-- Letters are looked at one by one: there are too many characters to go through all of them.
instance : ∀ (op : Operator) (t : ValueType), Decidable (op.IsMeantFor t)
  | negation, t => inferInstanceAs (Decidable (t.isNumeric = true))
  | selection field, t =>
    letI : Decidable (∀ c ∈ field.toList, c ∈ componentNames) := List.decidableBAll _ _
    inferInstanceAs (Decidable (t.isVector = true ∧ t ≠ .scalar ∧ field ≠ "" ∧ _))
  | axis _, _ => inferInstanceAs (Decidable (_ ∧ _))

instance : ∀ (op : Operator) (t : ValueType), Decidable (op.IsDefinedFor t)
  | selection field, t =>
    letI : Decidable (∀ c ∈ field.toList, c ∈ componentNames.take (t.components?.getD 1)) :=
      List.decidableBAll _ _
    decidable_of_iff ((selection field).IsMeantFor t ∧
        ∀ c ∈ field.toList, c ∈ componentNames.take (t.components?.getD 1))
      ⟨fun h ↦ ⟨h.1, fun _ hfield ↦ selection.inj hfield ▸ h.2⟩, fun h ↦ ⟨h.1, h.2 field rfl⟩⟩
  | negation, t =>
    decidable_of_iff (negation.IsMeantFor t) ⟨fun h ↦ ⟨h, fun _ hfield ↦ by cases hfield⟩, And.left⟩
  | axis index, t =>
    decidable_of_iff ((axis index).IsMeantFor t)
      ⟨fun h ↦ ⟨h, fun _ hfield ↦ by cases hfield⟩, And.left⟩

theorem isSyntaxWord_of_components {s : String} (h : ∀ c ∈ s.toList, c ∈ componentNames) :
    IsSyntaxWord s := by
  have hletters : ∀ c ∈ componentNames, glyphOf c = .letter ∧ c ≠ 'v' ∧ c ≠ 'i' ∧ c ≠ 'o' := by
    intro c hc
    simp only [componentNames, List.mem_cons, List.not_mem_nil, or_false] at hc
    rcases hc with rfl | rfl | rfl | rfl <;> decide
  refine ⟨⟨fun c hc ↦ (hletters c (h c hc)).1, ?_⟩, fun hs ↦ ?_⟩
  · unfold isTemporary
    split
    · next hs => exact absurd rfl (hletters 'v' (h 'v' (by simp [hs]))).2.1
    · rfl
  · obtain rfl | rfl : s = "i" ∨ s = "o" := by simpa [structVariables] using hs
    · exact absurd rfl (hletters 'i' (h 'i' (by simp))).2.2.1
    · exact absurd rfl (hletters 'o' (h 'o' (by simp))).2.2.2

theorem isDefinedFor_component {t : ValueType} {c : String} (hvector : t.isVector) (hwide : t ≠ .scalar)
    (hc : c ∈ ["x", "y", "z", "w"].take (t.components?.getD 1)) : (selection c).IsDefinedFor t := by
  have hall : ∀ t ∈ [ValueType.vec2, .vec3, .vec4],
      ∀ c ∈ ["x", "y", "z", "w"].take (t.components?.getD 1), (selection c).IsDefinedFor t := by
    decide
  refine hall t ?_ c hc
  cases t <;> first | decide | exact absurd rfl hwide | cases hvector

/-- An operator and its operand are a phrase. -/
theorem phrase_apply {atom : String → Prop} {op : Operator} {t : ValueType} {text : String}
    (hop : op.IsDefinedFor t) (h : Phrase atom text) : Phrase atom (op.apply text) := by
  cases op with
  | negation => exact .after (m := "-") (by decide) h
  | selection field => exact .select h (.word (isSyntaxWord_of_components hop.1.2.2.2))
  | axis index =>
    exact .before (.between h (m := "[") (by decide) (phrase_toString_nat _)) (m := "]") (by decide)

end Operator

/-! ## Operators in templates -/

namespace Template

/-- The places of a placeholder in a template: the character in front of it and the text behind it. -/
def occurrences (hole : List Char) : Option Char → List Char → List (Option Char × List Char)
  | _, [] => []
  | last?, c :: cs =>
    if hole.isPrefixOf (c :: cs) then
      (last?, (c :: cs).drop hole.length) :: occurrences hole (some c) cs
    else occurrences hole (some c) cs

/-- The operators that the text around a placeholder applies to it. A word that does not consist of
component names is the name of a method. -/
def operatorsAround (last? : Option Char) (rest : List Char) : List Operator :=
  (if last? = some '-' then [Operator.negation] else []) ++
    match rest with
    | '.' :: cs =>
      let field := cs.takeWhile fun c ↦ glyphOf c = .letter
      if field.all (· ∈ componentNames) then [.selection (String.ofList field)] else []
    | '[' :: cs => [.axis (digitsValue (cs.takeWhile Char.isDigit))]
    | _ => []

/-- The operators that a template applies to the values of a placeholder. -/
def operators (template name : String) : List Operator :=
  (occurrences (placeholder name).toList none template.toList).flatMap fun p ↦
    operatorsAround p.1 p.2

example : operators "\x7ba\x7d.Load(\x7bb\x7d.xy, -\x7bb\x7d)" "b" = [.selection "xy", .negation] := by
  decide +kernel

end Template

/-- No operator stands at the factors of a product. -/
theorem Backend.operators_product (b : Backend) :
    (∀ name ∈ ["matrix", "vector"], Template.operators b.dialect.transform name = []) ∧
      ∀ name ∈ ["left", "right"], Template.operators b.dialect.matrixMultiply name = [] := by
  cases b <;> decide +kernel

/-- The templates of a dialect with the names of their placeholders. -/
inductive Dialect.IsTemplate (d : Dialect) : String → List String → Prop
  | transform : d.IsTemplate d.transform ["matrix", "vector"]
  | matrixMultiply : d.IsTemplate d.matrixMultiply ["left", "right"]
  | sample {t : ValueType} {templates : SampleTemplates} {template : String}
    (h : d.sampleTemplates? t = some templates)
    (htemplate : template = templates.sample ∨ templates.sampleBias? = some template ∨
      templates.sampleLod? = some template ∨
      templates.sampleCompare?.map CompareTemplate.template = some template) :
    d.IsTemplate template ["texture", "sampler", "coord", "bias"]

/-! ## Texts -/

/-- Syntax in front of an operand that does not apply to it. -/
structure Leading (m : String) : Prop where
  opening : Opening m
  unsigned : m.toList.getLast? ≠ some '-'

/-- Syntax behind an operand that does not apply to it. -/
structure Trailing (m : String) : Prop where
  closing : Closing m
  pointless : m.toList.head? ≠ some '.'
  bracketless : m.toList.head? ≠ some '['

instance (m : String) : Decidable (Leading m) :=
  decidable_of_iff (Opening m ∧ m.toList.getLast? ≠ some '-') ⟨fun h ↦ ⟨h.1, h.2⟩, fun h ↦ ⟨h.1, h.2⟩⟩

instance (m : String) : Decidable (Trailing m) :=
  decidable_of_iff (Closing m ∧ m.toList.head? ≠ some '.' ∧ m.toList.head? ≠ some '[')
    ⟨fun h ↦ ⟨h.1, h.2.1, h.2.2⟩, fun h ↦ ⟨h.1, h.2, h.3⟩⟩

theorem leading_paren : Leading "(" := by decide

theorem trailing_paren : Trailing ")" := by decide

theorem inner_paren : Trailing "(" ∧ Leading "(" := by decide

theorem inner_comma : Trailing ", " ∧ Leading ", " := by decide

/-- The variable is a component of a vector. -/
def Variable.IsComponentOf (v w : Variable) : Prop :=
  ∃ c ∈ ["x", "y", "z", "w"], (Operator.selection c).IsDefinedFor w.type ∧
    v = ⟨s!"{w.name}.{c}", .scalar⟩

/-- What a running emitter has at hand. -/
structure Held where
  /-- Values of inputs, parameters and attributes. -/
  values : List Variable := []
  /-- Conversions of values, under the types to which they were converted. -/
  operands : List Variable := []
  /-- Names of samplers, subroutines and results, and values that the target provides. -/
  names : List String := []
  /-- Names of parameters, which may be arrays. -/
  parameters : List String := []
  /-- Inputs that were evaluated. -/
  pins : List String := []
  /-- Stages that the emitter found itself in. -/
  stages : List ShaderStage := []

namespace Held

def texts (H : Held) : List String :=
  H.values.map Variable.name ++ H.operands.map Variable.name ++ H.names

/-- The variable is a value or a conversion of one. -/
def IsAtHand (H : Held) (v : Variable) : Prop :=
  v ∈ H.values ∨ v ∈ H.operands

/-- Texts that are formed from what is at hand. Fixed syntax between the parts applies to none of them;
operators stand at values and conversions, for whose types they are defined, and subscripts at
parameters. -/
inductive Forms (H : Held) : String → Prop
  | held {s : String} (h : s ∈ H.texts) : Forms H s
  | apply (op : Operator) {v : Variable} (hv : H.IsAtHand v) (hop : op.IsDefinedFor v.type) :
    Forms H (op.apply v.name)
  | element {v : Variable} {place : String} (hv : v ∈ H.values) (hparameter : v.name ∈ H.parameters)
    (hplace : Forms H place) : Forms H s!"{v.name}[{place}]"
  | fixed {s : String} (h : Phrase (fun _ ↦ False) s) : Forms H s
  | after {m b : String} (hm : Leading m) (hb : Forms H b) : Forms H (m ++ b)
  | before {a m : String} (ha : Forms H a) (hm : Trailing m) : Forms H (a ++ m)
  | between {a m b : String} (ha : Forms H a) (hm : Trailing m ∧ Leading m) (hb : Forms H b) :
    Forms H (a ++ m ++ b)

/-- Lines that are formed from what is at hand and assign nothing. -/
def States (H : Held) (line : String) : Prop :=
  ∃ body m, line = body ++ m ∧ H.Forms body ∧ Trailing m ∧ Ending m

/-- Expressions that are formed from what is at hand, directly or by a template of the dialect. What a
template applies operators to is a value or a conversion, for whose type they are defined. -/
def Computes (H : Held) (d : Dialect) (expr : String) : Prop :=
  H.Forms expr ∨ ∃ template args, d.IsTemplate template (args.map Prod.fst) ∧
    (∀ a ∈ args, H.Forms a.2) ∧
    (∀ a ∈ args, ∀ op ∈ Template.operators template a.1, ∃ v, H.IsAtHand v ∧ v.name = a.2 ∧
      op.IsDefinedFor v.type) ∧
    expr = Template.fill template args

@[simps]
def read (H : Held) (pin : String) (value? : Option Variable) : Held :=
  { H with values := value?.toList ++ H.values, pins := pin :: H.pins }

@[simps]
def addValue (H : Held) (v : Variable) : Held :=
  { H with values := v :: H.values }

@[simps]
def addOperand (H : Held) (text : String) (t : ValueType) : Held :=
  { H with operands := ⟨text, t⟩ :: H.operands }

@[simps]
def addName (H : Held) (name : String) : Held :=
  { H with names := name :: H.names }

@[simps]
def addParameter (H : Held) (v : Variable) : Held :=
  { H with values := v :: H.values, parameters := v.name :: H.parameters }

@[simps]
def addPins (H : Held) (pins : List String) : Held :=
  { H with pins := pins ++ H.pins }

@[simps]
def addStage (H : Held) (stage : ShaderStage) : Held :=
  { H with stages := stage :: H.stages }

variable {H K : Held} {text name : String} {v : Variable} {t : ValueType}

/-- Everything at hand in `H` is at hand in `K`. -/
structure Le (H K : Held) : Prop where
  values : H.values ⊆ K.values
  operands : H.operands ⊆ K.operands
  names : H.names ⊆ K.names
  parameters : H.parameters ⊆ K.parameters
  pins : H.pins ⊆ K.pins
  stages : H.stages ⊆ K.stages

theorem Le.refl (H : Held) : H.Le H :=
  ⟨List.Subset.refl _, List.Subset.refl _, List.Subset.refl _, List.Subset.refl _,
    List.Subset.refl _, List.Subset.refl _⟩

theorem Le.trans {H K L : Held} (h : H.Le K) (h' : K.Le L) : H.Le L :=
  ⟨List.Subset.trans h.values h'.values, List.Subset.trans h.operands h'.operands,
    List.Subset.trans h.names h'.names, List.Subset.trans h.parameters h'.parameters,
    List.Subset.trans h.pins h'.pins, List.Subset.trans h.stages h'.stages⟩

theorem Le.texts (h : H.Le K) : H.texts ⊆ K.texts := by
  intro text htext
  simp only [Held.texts, List.mem_append] at htext ⊢
  obtain (htext | htext) | htext := htext
  · exact .inl (.inl (List.map_subset _ h.values htext))
  · exact .inl (.inr (List.map_subset _ h.operands htext))
  · exact .inr (h.names htext)

theorem IsAtHand.name_mem (h : H.IsAtHand v) : v.name ∈ H.texts := by
  simp only [texts, List.mem_append]
  exact .inl (h.imp List.mem_map_of_mem List.mem_map_of_mem)

theorem Forms.mono (hle : H.Le K) (h : H.Forms text) : K.Forms text := by
  induction h with
  | held h => exact .held (hle.texts h)
  | apply op hv hop => exact .apply op (hv.imp (hle.values ·) (hle.operands ·)) hop
  | element hv hparameter _ ih => exact .element (hle.values hv) (hle.parameters hparameter) ih
  | fixed h => exact .fixed h
  | after hm _ ih => exact .after hm ih
  | before _ hm ih => exact .before ih hm
  | between _ hm _ iha ihb => exact .between iha hm ihb

/-- What is formed is a phrase over the texts at hand. -/
theorem Forms.phrase (h : H.Forms text) : Phrase (· ∈ H.texts) text := by
  induction h with
  | held h => exact .atom h
  | apply _ hv hop => exact Operator.phrase_apply hop (.atom hv.name_mem)
  | element hv _ _ ih =>
    exact .before (.between (.atom (IsAtHand.name_mem (.inl hv))) (m := "[") (by decide) ih) (m := "]")
      (by decide)
  | fixed h => exact h.mono fun _ ↦ False.elim
  | after hm _ ih => exact .after hm.opening ih
  | before _ hm ih => exact .before ih hm.closing
  | between _ hm _ iha ihb => exact .between iha ⟨hm.1.closing, hm.2.opening⟩ ihb

theorem States.sentence (h : H.States text) : Sentence (· ∈ H.texts) text := by
  obtain ⟨body, m, rfl, hbody, hm, hend⟩ := h
  exact ⟨body, m, rfl, hbody.phrase, hm.closing, hend⟩

theorem forms_value (h : v ∈ H.values) : H.Forms v.name :=
  .held (IsAtHand.name_mem (.inl h))

theorem forms_operand {e : String} (h : ⟨e, t⟩ ∈ H.operands) : H.Forms e :=
  .held (IsAtHand.name_mem (v := ⟨e, t⟩) (.inr h))

theorem forms_name (h : name ∈ H.names) : H.Forms name :=
  .held (by simp only [texts, List.mem_append]; exact .inr h)

/-! ### Compound texts -/

namespace Forms

variable {f x y : String}

theorem empty : H.Forms "" :=
  .fixed .empty

theorem call (hf : IsSyntaxWord f) (hx : H.Forms x) : H.Forms s!"{f}({x})" :=
  .before (.between (.fixed (.word hf)) inner_paren hx) trailing_paren

theorem binary {op : String} (hx : H.Forms x) (hop : Trailing s!" {op} " ∧ Leading s!" {op} ")
    (hy : H.Forms y) : H.Forms s!"{x} {op} {y}" := by
  have h := Forms.between hx hop hy
  simp only [← String.append_assoc] at h
  exact h

theorem test {m op : String} (hm : Leading m) (hx : H.Forms x)
    (hop : Trailing s!" {op} " ∧ Leading s!" {op} ") (hy : H.Forms y) :
    H.Forms s!"{m}{x} {op} {y}" := by
  have h := Forms.between (.after hm hx) hop hy
  simp only [← String.append_assoc] at h
  exact h

theorem list {xs : List String} (h : ∀ x ∈ xs, H.Forms x) : H.Forms (", ".intercalate xs) := by
  induction xs with
  | nil => exact empty
  | cons x xs ih =>
    cases xs with
    | nil => simpa using h x (by simp)
    | cons y ys =>
      rw [String.intercalate_cons_cons]
      exact .between (h x (by simp)) inner_comma (ih fun z hz ↦ h z (List.mem_cons_of_mem x hz))

theorem construct (b : Backend) {args : List String} (h : ∀ a ∈ args, H.Forms a) :
    H.Forms (b.dialect.construct t args) :=
  call (b.isSyntaxWord_typeNameOrVoid t) (list h)

theorem splat (b : Backend) {expr : String} (h : H.Forms expr) : H.Forms (b.dialect.splat t expr) := by
  unfold Dialect.splat
  split
  · exact call (b.isSyntaxWord_typeNameOrVoid t) h
  · exact .between (.after leading_paren (.fixed (.word (b.isSyntaxWord_typeNameOrVoid t)))) (by decide) h

end Forms

end Held

end ShaderGraph
