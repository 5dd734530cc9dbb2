import ShaderGraph.Proofs.Storage.Schema
import ShaderGraph.Ron.Printer

/-!
# Tokens of printed data

The text of a datum has the tokens that stand for it: brackets, names and the tokens of its parts.
Line breaks and indentation leave no trace.
-/

namespace ShaderGraph.Ron

/-- The name of a record or of a type around one value, if names are written. -/
def typeName? (names : Bool) (name : String) : Option Identifier :=
  if names then some ⟨name, false⟩ else none

/-- The name of a case, marked if it would be read as a value. -/
def caseIdentifier (name : String) : Identifier :=
  ⟨name, decide (name ∈ valueNames)⟩

/-- Entries in brackets, each followed by a comma. -/
def blockTokens (opening closing : Char) (entries : List (List Token)) : List Token :=
  .mark opening :: (entries.flatMap (· ++ [Token.mark ',']) ++ [Token.mark closing])

def typeTokens (names : Bool) (name : String) : List Token :=
  ((typeName? names name).map Token.name).toList

mutual

/-- The tokens that stand for a datum. -/
def tokensOf (names : Bool) : Datum → List Token
  | .unit => [.mark '(', .mark ')']
  | .bool b => [.name ⟨if b then "true" else "false", false⟩]
  | .byte x => [.number (toString x.toNat).toList]
  | .word x => [.number (toString x.toNat).toList]
  | .integer x => [.number (toString x.toInt).toList]
  | .float x => [.number (floatText x).toList]
  | .text s => [.text s]
  | .absent => [.name ⟨"None", false⟩]
  | .present d => .name ⟨"Some", false⟩ :: .mark '(' :: (tokensOf names d ++ [Token.mark ')'])
  | .list items => blockTokens '[' ']' (itemTokens names items)
  | .map entries => blockTokens '{' '}' (entryTokens names entries)
  | .tuple items =>
    .mark '(' :: ([Token.mark ','].intercalate (itemTokens names items) ++ [Token.mark ')'])
  | .wrapper name d => typeTokens names name ++ Token.mark '(' :: (tokensOf names d ++ [Token.mark ')'])
  | .record name fields =>
    typeTokens names name ++ blockTokens '(' ')' (fieldTokens names fields)
  | .variant _ name .unit => [.name (caseIdentifier name)]
  | .variant _ name (.record _ fields) =>
    .name (caseIdentifier name) :: blockTokens '(' ')' (fieldTokens names fields)
  | .variant _ name payload =>
    .name (caseIdentifier name) :: .mark '(' :: (tokensOf names payload ++ [Token.mark ')'])
termination_by structural d => d

def itemTokens (names : Bool) : List Datum → List (List Token)
  | [] => []
  | d :: ds => tokensOf names d :: itemTokens names ds
termination_by structural ds => ds

def fieldTokens (names : Bool) : List (String × Datum) → List (List Token)
  | [] => []
  | (name, d) :: fields =>
    (.name ⟨name, false⟩ :: .mark ':' :: tokensOf names d) :: fieldTokens names fields
termination_by structural fields => fields

def entryTokens (names : Bool) : List (Datum × Datum) → List (List Token)
  | [] => []
  | (key, d) :: entries =>
    (tokensOf names key ++ Token.mark ':' :: tokensOf names d) :: entryTokens names entries
termination_by structural entries => entries

end

section Parts

variable {names : Bool} {level : Nat}

theorem printItems_eq_map (ds : List Datum) :
    printItems names level ds = ds.map (print names level) := by
  induction ds with
  | nil => rfl
  | cons d ds ih => rw [printItems, ih, List.map_cons]

theorem printFields_eq_map (fields : List (String × Datum)) :
    printFields names level fields = fields.map fun f ↦ f.1 ++ ": " ++ print names level f.2 := by
  induction fields with
  | nil => rfl
  | cons f fields ih => rw [printFields, ih, List.map_cons]

theorem printEntries_eq_map (entries : List (Datum × Datum)) :
    printEntries names level entries =
      entries.map fun e ↦ print names level e.1 ++ ": " ++ print names level e.2 := by
  induction entries with
  | nil => rfl
  | cons e entries ih => rw [printEntries, ih, List.map_cons]

theorem itemTokens_eq_map (ds : List Datum) : itemTokens names ds = ds.map (tokensOf names) := by
  induction ds with
  | nil => rfl
  | cons d ds ih => rw [itemTokens, ih, List.map_cons]

theorem fieldTokens_eq_map (fields : List (String × Datum)) :
    fieldTokens names fields =
      fields.map fun f ↦ .name ⟨f.1, false⟩ :: .mark ':' :: tokensOf names f.2 := by
  induction fields with
  | nil => rfl
  | cons f fields ih => rw [fieldTokens, ih, List.map_cons]

theorem entryTokens_eq_map (entries : List (Datum × Datum)) :
    entryTokens names entries =
      entries.map fun e ↦ tokensOf names e.1 ++ Token.mark ':' :: tokensOf names e.2 := by
  induction entries with
  | nil => rfl
  | cons e entries ih => rw [entryTokens, ih, List.map_cons]

end Parts

/-! ## Texts and their tokens -/

/-- The text has these tokens wherever a separator follows. -/
def Scans (text : String) (ts : List Token) : Prop :=
  ∀ ⦃rest : List Char⦄ ⦃more : List Token⦄, Separated rest → Lexes rest more →
    Lexes (text.toList ++ rest) (ts ++ more)

variable {text other : String} {ts us : List Token} {rest : List Char} {more : List Token}

theorem Scans.word {s : String} (hs : isWord s = true) : Scans s [.name ⟨s, false⟩] :=
  fun _ _ hrest h ↦ .word hs hrest h

theorem Scans.caseText {name : String} (hname : isWord name = true) :
    Scans (caseText name) [.name (caseIdentifier name)] := by
  intro rest more hrest h
  unfold Ron.caseText caseIdentifier
  split
  · next hvalue =>
    rw [decide_eq_true hvalue]
    exact .rawWord hname hrest h
  · next hvalue =>
    rw [decide_eq_false hvalue]
    exact .word hname hrest h

theorem Lexes.lineStart (level : Nat) (h : Lexes rest more) :
    Lexes ((lineStart level).toList ++ rest) more := by
  rw [Ron.lineStart, String.toList_append, List.append_assoc]
  change Lexes ('\n' :: (_ ++ rest)) more
  rw [String.toList_ofList]
  exact .blank rfl (.blanks _ h)

section Block

variable {ι : Type} {items : List ι} {text : ι → String} {tokens : ι → List Token}
  (h : ∀ i ∈ items, Scans (text i) (tokens i))

include h

theorem Lexes.lines (level : Nat) (hrest : Lexes rest more) :
    Lexes ((String.join (items.map fun i ↦ Ron.lineStart level ++ text i ++ ",")).toList ++ rest)
      ((items.map tokens).flatMap (· ++ [Token.mark ',']) ++ more) := by
  induction items with
  | nil => exact hrest
  | cons i items ih =>
    obtain ⟨hi, hitems⟩ := List.forall_mem_cons.mp h
    simp only [List.map_cons, String.join_cons, String.toList_append, List.flatMap_cons,
      List.append_assoc]
    refine .lineStart level (hi (separated_cons (by decide) _) ?_)
    exact .mark rfl (ih hitems)

/-- A block has the tokens of its entries, each with a comma. -/
theorem Scans.block {opening closing : String} {o c : Char} (hopening : opening.toList = [o])
    (hclosing : closing.toList = [c]) (ho : isMark o = true) (hc : isMark c = true) (level : Nat) :
    Scans (Ron.block opening closing level (items.map text)) (blockTokens o c (items.map tokens)) := by
  intro rest more hrest hmore
  unfold Ron.block blockTokens
  rw [List.cons_append, List.append_assoc]
  cases items with
  | nil =>
    rw [List.map_nil, List.isEmpty_nil, if_pos rfl, String.toList_append, hopening, hclosing]
    exact .mark ho (.mark hc hmore)
  | cons i items =>
    rw [List.map_cons, List.isEmpty_cons, if_neg Bool.false_ne_true, ← List.map_cons]
    simp only [String.toList_append, hopening, hclosing, List.append_assoc, List.map_map]
    exact .mark ho (.lines h _ (.lineStart level (.mark hc hmore)))

/-- Items with commas between them. -/
theorem Scans.commaSeparated :
    Scans (", ".intercalate (items.map text)) ([.mark ','].intercalate (items.map tokens)) := by
  induction items with
  | nil => exact fun _ _ _ hmore ↦ hmore
  | cons i items ih =>
    obtain ⟨hi, hitems⟩ := List.forall_mem_cons.mp h
    cases items with
    | nil => simpa using hi
    | cons j items =>
      intro rest more hrest hmore
      simp only [List.map_cons, String.intercalate_cons_cons, List.intercalate_cons_cons,
        String.toList_append, List.append_assoc]
      refine hi (separated_cons (by decide) _) (.mark rfl (.blank rfl ?_))
      exact ih hitems hrest hmore

/-- A name in front of fields. -/
theorem Scans.fields (hother : Scans other us) (level : Nat) :
    Scans (other ++ Ron.block "(" ")" level (items.map text))
      (us ++ blockTokens '(' ')' (items.map tokens)) := by
  intro rest more hrest hmore
  rw [String.toList_append, List.append_assoc, List.append_assoc]
  refine hother ?_ (Scans.block h rfl rfl rfl rfl level hrest hmore)
  have hopening : ∃ cs, (Ron.block "(" ")" level (items.map text)).toList = '(' :: cs := by
    unfold Ron.block
    split <;> simp
  obtain ⟨cs, hcs⟩ := hopening
  rw [hcs]
  exact separated_cons (by decide) _

end Block

/-- A name in front of one value. -/
theorem Scans.group (hother : Scans other us) (h : Scans text ts) :
    Scans (other ++ "(" ++ text ++ ")") (us ++ Token.mark '(' :: (ts ++ [Token.mark ')'])) := by
  intro rest more hrest hmore
  simp only [String.toList_append, List.append_assoc, List.cons_append]
  refine hother (separated_cons (by decide) _) (.mark rfl ?_)
  exact h (separated_cons (by decide) _) (.mark rfl hmore)

theorem Scans.typeName {names : Bool} {name : String} (hname : isWord name = true) :
    Scans (if names then name else "") (typeTokens names name) := by
  cases names with
  | true => exact .word hname
  | false => exact fun _ _ _ hmore ↦ hmore

theorem Scans.field {name : String} (hname : isWord name = true) (h : Scans text ts) :
    Scans (name ++ ": " ++ text) (.name ⟨name, false⟩ :: .mark ':' :: ts) := by
  intro rest more hrest hmore
  simp only [String.toList_append, List.append_assoc]
  exact .word hname (separated_cons (by decide) _) (.mark rfl (.blank rfl (h hrest hmore)))

theorem Scans.entry (h : Scans text ts) (hother : Scans other us) :
    Scans (text ++ ": " ++ other) (ts ++ Token.mark ':' :: us) := by
  intro rest more hrest hmore
  simp only [String.toList_append, List.append_assoc]
  exact h (separated_cons (by decide) _) (.mark rfl (.blank rfl (hother hrest hmore)))

/-! ## Printed data -/

variable {schema : Schema} {d : Datum}

theorem floatText_of_isFinite {x : Binary32} (hx : x.isFinite = true) :
    floatText x = x.literal := by
  have hnan : x.isNaN = false := decide_eq_false (lt_asymm (of_decide_eq_true hx))
  rw [floatText, hnan, Bool.false_and, if_neg Bool.false_ne_true]

theorem print_single {names : Bool} {level : Nat} {index : Nat} {name : String}
    (hd : d.isSingle = true) : print names level (.variant index name d) =
      caseText name ++ "(" ++ print names level d ++ ")" := by
  cases d <;> first | rfl | cases hd

theorem tokensOf_single {names : Bool} {index : Nat} {name : String} (hd : d.isSingle = true) :
    tokensOf names (.variant index name d) =
      [Token.name (caseIdentifier name)] ++ Token.mark '(' :: (tokensOf names d ++ [Token.mark ')']) := by
  cases d <;> first | rfl | cases hd

/-- The text of a datum that fits a schema has the tokens of the datum. -/
theorem Scans.print (h : schema.Admits .document d) (names : Bool) (level : Nat) :
    Scans (print names level d) (tokensOf names d) := by
  induction h generalizing level with
  | bool b =>
    cases b with
    | true => exact .word (s := "true") (by decide)
    | false => exact .word (s := "false") (by decide)
  | byte x => exact fun _ _ hrest hmore ↦ .natural x.toNat hrest hmore
  | word x => exact fun _ _ hrest hmore ↦ .natural x.toNat hrest hmore
  | integer x => exact fun _ _ hrest hmore ↦ .int x.toInt hrest hmore
  | float hx =>
    rw [Ron.print, tokensOf, floatText_of_isFinite hx]
    exact fun _ _ hrest hmore ↦ .float hx hrest hmore
  | text _ => exact fun _ _ _ hmore ↦ .text _ hmore
  | absent _ => exact .word (s := "None") (by decide)
  | present _ _ ih =>
    have hsome : Scans "Some" [.name ⟨"Some", false⟩] := .word (by decide)
    rw [Ron.print, show "Some(" = "Some" ++ "(" by decide]
    exact .group hsome (ih level)
  | list _ _ ih =>
    rw [Ron.print, tokensOf, printItems_eq_map, itemTokens_eq_map]
    exact .block (fun d hd ↦ ih d hd _) rfl rfl rfl rfl level
  | map _ _ _ _ ihkeys ihvalues =>
    rw [Ron.print, tokensOf, printEntries_eq_map, entryTokens_eq_map]
    exact .block (fun e he ↦ .entry (ihkeys e he _) (ihvalues e he _)) rfl rfl rfl rfl level
  | tuple _ ih =>
    rw [Ron.print, tokensOf, printItems_eq_map, itemTokens_eq_map, List.map_map, List.map_map]
    have hempty : Scans "" [] := fun _ _ _ hmore ↦ hmore
    rw [show "(" = "" ++ "(" by decide]
    exact .group hempty (.commaSeparated fun p hp ↦ ih p hp level)
  | wrapper hname _ ih => exact .group (.typeName hname) (ih level)
  | record hname hnames _ ih =>
    rw [Ron.print, tokensOf, printFields_eq_map, fieldTokens_eq_map, List.map_map, List.map_map]
    exact .fields (fun f hf ↦ .field (hnames.word_of_mem hf) (ih f hf _)) (.typeName hname) level
  | constant hcase => exact .caseText hcase.word
  | fields hcase hnames _ ih =>
    rw [Ron.print, tokensOf, printFields_eq_map, fieldTokens_eq_map, List.map_map, List.map_map]
    exact .fields (fun f hf ↦ .field (hnames.word_of_mem hf) (ih f hf _)) (.caseText hcase.word)
      level
  | single hcase hsingle hd ih =>
    rw [print_single (hd.isSingle.trans hsingle), tokensOf_single (hd.isSingle.trans hsingle)]
    exact .group (.caseText hcase.word) (ih level)

end ShaderGraph.Ron
