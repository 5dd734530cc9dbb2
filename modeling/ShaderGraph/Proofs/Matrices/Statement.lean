import ShaderGraph.Proofs.Language.Literal

/-!
# Statements without blocks

A line of a body that has no blocks declares a variable with its value, or writes a value to an output.
The value is an operand, or two operands with an operator between them. Casts and longer formulas are
not read.
-/

namespace ShaderGraph

/-- An operator between two operands. -/
inductive BinaryOperator
  | sum
  | difference
  | product
deriving DecidableEq, Repr

namespace BinaryOperator

def symbol : BinaryOperator → Char
  | sum => '+'
  | difference => '-'
  | product => '*'

def ofSymbol? (c : Char) : Option BinaryOperator :=
  [sum, difference, product].find? fun op ↦ op.symbol = c

@[simp]
theorem ofSymbol?_symbol (op : BinaryOperator) : ofSymbol? op.symbol = some op := by
  cases op <;> rfl

end BinaryOperator

/-- The value of a statement. -/
inductive Formula
  | operand (e : Expression)
  | combination (op : BinaryOperator) (left right : Expression)

/-- Splits off an operator between two blanks. -/
def splitOperator? : List Char → Option (BinaryOperator × List Char)
  | ' ' :: c :: ' ' :: cs => (BinaryOperator.ofSymbol? c).map (·, cs)
  | _ => none

/-- The formula that a text is. -/
def formula? (text : String) : Option Formula :=
  match readExpression [] (2 * text.toList.length + 1) text.toList with
  | none => none
  | some (e, []) => some (.operand e)
  | some (left, rest) => do
    let (op, cs) ← splitOperator? rest
    return .combination op left (← expression? [] (String.ofList cs))

structure Statement where
  /-- The type of the variable that is declared. -/
  type? : Option String
  target : String
  value : Formula

/-- The formula behind an equals sign, up to the semicolon at the end. -/
def assigned? : List Char → Option Formula
  | '=' :: ' ' :: cs =>
    if cs.getLast? = some ';' then formula? (String.ofList cs.dropLast) else none
  | _ => none

/-- The target of a statement and its type, from the words in front of the equals sign. A blank follows
the last of them. -/
def target? : List String → Option (Option String × String)
  | ["const", type, target, ""] | [type, target, ""] => some (some type, target)
  | [target, ""] => some (none, target)
  | _ => none

/-- The statement that a line is. -/
def statement? (line : String) : Option Statement := do
  let words := ((line.toList.takeWhile (· ≠ '=')).splitOn ' ').map String.ofList
  let (type?, target) ← target? words
  return ⟨type?, target, ← assigned? (line.toList.dropWhile (· ≠ '='))⟩

/-! ## Formulas -/

section Formulas

variable {text left right : String} {e f : Expression}

theorem formula?_operand (h : expression? [] text = some e) : formula? text = some (.operand e) := by
  have hread : readExpression [] (2 * text.toList.length + 1) (text.toList ++ []) = some (e, []) :=
    readExpression_of_expression? h (by simp [EndsExpression, EndsWord]) (Nat.lt_succ_self _)
  rw [List.append_nil] at hread
  rw [formula?, hread]

theorem formula?_combination (op : BinaryOperator) (hleft : expression? [] left = some e)
    (hright : expression? [] right = some f) :
    formula? (left ++ (String.ofList [' ', op.symbol, ' '] ++ right)) =
      some (.combination op e f) := by
  let more := ' ' :: op.symbol :: ' ' :: right.toList
  have htext : (left ++ (String.ofList [' ', op.symbol, ' '] ++ right)).toList =
      left.toList ++ more := by
    simp [more, String.toList_append]
  have hends : EndsExpression more := by simp [more, EndsExpression, EndsWord, isWordCharacter]
  have hread : readExpression [] (2 * (left.toList ++ more).length + 1) (left.toList ++ more) =
      some (e, more) :=
    readExpression_of_expression? hleft hends (by simp only [List.length_append]; omega)
  rw [formula?, htext, hread]
  simp [more, splitOperator?, hright]

end Formulas

/-! ## Lines -/

/-- Text without blanks and equals signs. -/
def IsTarget (s : String) : Prop :=
  ' ' ∉ s.toList ∧ '=' ∉ s.toList

instance (s : String) : Decidable (IsTarget s) :=
  inferInstanceAs (Decidable (_ ∧ _))

theorem IsWord.isTarget {s : String} (h : IsWord s) : IsTarget s := by
  constructor <;> intro hc <;> cases h _ hc

section Lines

variable {words : List String} {type target text : String} {φ : Formula}

/-- The words in front of the equals sign are told apart by blanks, and the formula stands behind it. -/
theorem statement?_words {s? : Option (Option String × String)} (hwords : ∀ w ∈ words, IsTarget w)
    (hs : target? (words ++ [""]) = s?) (h : formula? text = some φ) :
    statement? (" ".intercalate (words ++ [""]) ++ s!"= {text};") =
      s?.map fun s ↦ ⟨s.1, s.2, φ⟩ := by
  have hall : ∀ l ∈ (words ++ [""]).map String.toList, ' ' ∉ l ∧ '=' ∉ l := by
    intro l hl
    obtain ⟨w, hw, rfl⟩ := List.mem_map.mp hl
    obtain hw | hw := List.mem_append.mp hw
    · exact hwords w hw
    · rw [List.mem_singleton.mp hw]
      decide
  have hne : (words ++ [""]).map String.toList ≠ [] := by simp
  have hhead : '=' ∉ [' '].intercalate ((words ++ [""]).map String.toList) :=
    notMem_intercalate (by decide) fun l hl ↦ (hall l hl).2
  have hsplit := List.splitOn_intercalate ' ' (fun l hl ↦ (hall l hl).1) hne
  have hline : (" ".intercalate (words ++ [""]) ++ s!"= {text};").toList =
      [' '].intercalate ((words ++ [""]).map String.toList) ++ '=' :: ' ' :: (text.toList ++ [';']) := by
    simp only [String.toList_append, String.toList_intercalate, toString_text, List.append_assoc]
    rfl
  have hword (c : Char) (hc : c ∈ [' '].intercalate ((words ++ [""]).map String.toList)) :
      decide (c ≠ '=') = true := decide_eq_true fun heq ↦ hhead (heq ▸ hc)
  have hvalue : assigned? ('=' :: ' ' :: (text.toList ++ [';'])) = some φ := by
    rw [assigned?, List.getLast?_concat, if_pos rfl, List.dropLast_concat, String.ofList_toList, h]
  rw [statement?, hline, List.takeWhile_append_of_pos hword, List.dropWhile_append_of_pos hword,
    List.takeWhile_cons_of_neg (by simp), List.dropWhile_cons_of_neg (by simp), List.append_nil,
    hsplit, hvalue, List.map_map, show String.ofList ∘ String.toList = id from
      funext fun s ↦ String.ofList_toList, List.map_id, hs]
  cases s? <;> rfl

theorem blank_append_equals (rest : String) : " " ++ ("= " ++ rest) = " = " ++ rest := by
  rw [← String.append_assoc]
  rfl

theorem statement?_declaration (htype : IsTarget type) (htarget : IsTarget target)
    (h : formula? text = some φ) :
    statement? s!"{type} {target} = {text};" = some ⟨some type, target, φ⟩ := by
  have hwords : ∀ w ∈ [type, target], IsTarget w := by simpa using ⟨htype, htarget⟩
  have hline := statement?_words hwords rfl h
  simpa [target?, String.append_assoc, blank_append_equals] using hline

theorem statement?_constant (htype : IsTarget type) (htarget : IsTarget target)
    (h : formula? text = some φ) :
    statement? s!"const {type} {target} = {text};" = some ⟨some type, target, φ⟩ := by
  have hwords : ∀ w ∈ ["const", type, target], IsTarget w := by
    simpa using ⟨by decide, htype, htarget⟩
  have hline := statement?_words hwords rfl h
  simpa [target?, String.append_assoc, blank_append_equals] using hline

theorem statement?_assignment (htarget : IsTarget target) (h : formula? text = some φ) :
    statement? s!"{target} = {text};" = some ⟨none, target, φ⟩ := by
  have hwords : ∀ w ∈ [target], IsTarget w := by simpa using htarget
  have hline := statement?_words hwords rfl h
  simpa [target?, String.append_assoc, blank_append_equals] using hline

end Lines

end ShaderGraph
