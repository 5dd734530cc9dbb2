import ShaderGraph.Proofs.Scope.Writing
import ShaderGraph.Proofs.Text.Filling

/-!
# Lines of code

The lines that emitters write are code in the sense of `Code`: declarations and definitions of a
temporary, assignments, statements, and the headers of loops.
-/

namespace ShaderGraph

/-! ## Tokens of lines -/

/-- A character that stands for itself is a token wherever it occurs. -/
theorem mark_mem_tokens {c : Char} {s : String} (hc : glyphOf c = .single) (h : c ∈ s.toList) :
    .mark (String.ofList [c]) ∈ tokens s := by
  obtain ⟨as, bs, hs⟩ := List.append_of_mem h
  have hsplit : s = String.ofList as ++ (String.ofList [c] ++ String.ofList bs) := by
    apply String.toList_injective
    simpa using hs
  have hone : tokens (String.ofList [c]) = [.mark (String.ofList [c])] := by
    rw [tokens, String.toList_ofList]
    simp [lexemes, prependChar, Lexeme.token?, hc]
  have hends : EndsApart (String.ofList [c]) := by
    intro d hd
    obtain rfl : c = d := by simpa using hd
    rw [hc]
    rfl
  have hstarts : StartsApart (String.ofList [c] ++ String.ofList bs) := by
    intro d hd
    obtain rfl : c = d := by simpa using hd
    rw [hc]
    rfl
  rw [hsplit, tokens_append_of_startsApart hstarts, tokens_append_of_endsApart hends, hone]
  simp

theorem Quiet.isBraceFree {Γ : List String} {s : String} (h : Quiet Γ s) : IsBraceFree s.toList := by
  constructor
  · intro hmem
    have hmark := h.harmless _ (mark_mem_tokens (by decide) hmem)
    exact absurd (show String.ofList ['\x7b'] ∈ _ by decide) hmark
  · intro hmem
    have hmark := h.harmless _ (mark_mem_tokens (by decide) hmem)
    exact absurd (show String.ofList ['\x7d'] ∈ _ by decide) hmark

/-- Syntax that stands apart from what is around it. -/
theorem tokens_between {a m b : String} (hstarts : StartsApart m) (hends : EndsApart m)
    (hne : m ≠ "") : tokens (a ++ m ++ b) = tokens a ++ tokens m ++ tokens b := by
  rw [tokens_append_of_endsApart (hends.append hne), tokens_append_of_startsApart hstarts]

theorem tokens_space (a b : String) : tokens (a ++ " " ++ b) = tokens a ++ tokens b := by
  rw [tokens_between (by decide) (by decide) (by decide), show tokens " " = [] by decide,
    List.append_nil]

theorem tokens_equals (a b : String) :
    tokens (a ++ " = " ++ b) = tokens a ++ Token.mark "=" :: tokens b := by
  rw [tokens_between (by decide) (by decide) (by decide), show tokens " = " = [.mark "="] by decide,
    List.append_assoc]
  rfl

theorem tokens_semicolon (a : String) : tokens (a ++ ";") = tokens a ++ [Token.mark ";"] := by
  rw [tokens_append_of_startsApart (by decide), show tokens ";" = [.mark ";"] by decide]

section Words

variable {type v e : String}

theorem tokens_declaration (htype : tokens type = [.word type]) (hv : tokens v = [.word v]) :
    tokens s!"{type} {v};" = [.word type, .word v, .mark ";"] := by
  simp only [toString_text, tokens_semicolon, tokens_space, htype, hv]
  rfl

theorem tokens_definition (htype : tokens type = [.word type]) (hv : tokens v = [.word v]) :
    tokens s!"{type} {v} = {e};" =
      .word type :: .word v :: .mark "=" :: (tokens e ++ [Token.mark ";"]) := by
  simp only [toString_text, tokens_semicolon, tokens_equals, tokens_space, htype, hv]
  rfl

theorem tokens_assignment (hv : tokens v = [.word v]) :
    tokens s!"{v} = {e};" = .word v :: .mark "=" :: (tokens e ++ [Token.mark ";"]) := by
  simp only [toString_text, tokens_semicolon, tokens_equals, hv]
  rfl

theorem tokens_constant :
    tokens s!"const {type} {v} = {e};" = .word "const" :: tokens s!"{type} {v} = {e};" := by
  have hends : EndsApart "const " := by decide
  have hword : tokens "const " = [.word "const"] := by decide
  simp only [toString_text, String.append_assoc]
  rw [tokens_append_of_endsApart hends, hword]
  rfl

theorem tokens_accumulation (hv : tokens v = [.word v]) :
    tokens s!"{v} += {e};" = .word v :: .mark "+" :: .mark "=" :: (tokens e ++ [Token.mark ";"]) := by
  have hop : tokens " += " = [.mark "+", .mark "="] := by decide
  simp only [toString_text, tokens_semicolon]
  rw [tokens_between (by decide) (by decide) (by decide), hop, hv]
  rfl

end Words

theorem tokens_temporary (k : Nat) : tokens (temporary k) = [.word (temporary k)] :=
  tokens_word (isWord_temporary k) (temporary_ne_empty k)

/-! ## Types -/

namespace Backend

variable {b : Backend} {t : ValueType} {name : String}

theorem tokens_typeName (h : b.dialect.typeName? t = some name) : tokens name = [.word name] := by
  refine tokens_word (b.isPlainWord_of_typeName? h).1 ?_
  rintro rfl
  cases b <;> cases t <;> exact absurd h (by decide)

theorem mem_typeWords (h : b.dialect.typeName? t = some name) : name ∈ b.dialect.typeWords := by
  refine List.mem_filterMap.mpr ⟨t, ?_, h⟩
  cases t <;> decide

/-- Types that are named are those of numbers and those of textures. -/
theorem isTexture_of_typeName? (b : Backend) (h : b.dialect.typeName? t = some name)
    (ht : ¬ t.isNumeric) : t.isTexture := by
  cases t <;> first | rfl | exact absurd rfl ht | (cases b <;> cases h)

theorem isTemporary_of_mem_typeWords (b : Backend) :
    ∀ type ∈ b.dialect.typeWords, isTemporary type = false := by
  cases b <;> decide

end Backend

/-! ## Lines -/

section Lines

variable {b : Backend} {t : ValueType} {type e : String} {types Γ : List String} {k : Nat}

theorem code_declare (htype : b.dialect.typeName? t = some type) (hmem : type ∈ types) :
    Code types Γ (tokens s!"{type} {temporary k};") [temporary k] [temporary k] [] := by
  rw [tokens_declaration (b.tokens_typeName htype) (tokens_temporary k)]
  exact .declare hmem (isTemporary_temporary k)

theorem code_define (htype : b.dialect.typeName? t = some type) (hmem : type ∈ types)
    (he : Quiet Γ e) :
    Code types Γ (tokens s!"{type} {temporary k} = {e};") [temporary k] [temporary k] [] := by
  rw [tokens_definition (b.tokens_typeName htype) (tokens_temporary k)]
  exact .define (show [] = [] ∨ [] = [Token.word "const"] from .inl rfl) hmem
    (isTemporary_temporary k) he.inert

theorem code_constant (htype : b.dialect.typeName? t = some type) (hmem : type ∈ types)
    (he : Quiet Γ e) :
    Code types Γ (tokens s!"const {type} {temporary k} = {e};") [temporary k]
      [temporary k] [] := by
  rw [tokens_constant, tokens_definition (b.tokens_typeName htype) (tokens_temporary k)]
  have hpre : [Token.word "const"] = [] ∨ [Token.word "const"] = [.word "const"] := .inr rfl
  exact .define hpre hmem (isTemporary_temporary k) he.inert

theorem code_assign (hk : temporary k ∈ Γ) (he : Quiet Γ e) :
    Code types Γ (tokens s!"{temporary k} = {e};") [] [] [] := by
  rw [tokens_assignment (tokens_temporary k)]
  exact .assign hk (isTemporary_temporary k)
    (show [Token.mark "="] = [.mark "="] ∨ [Token.mark "="] = _ from .inl rfl) he.inert

theorem code_accumulate (hk : temporary k ∈ Γ) (he : Quiet Γ e) :
    Code types Γ (tokens s!"{temporary k} += {e};") [] [] [] := by
  rw [tokens_accumulation (tokens_temporary k)]
  have hop : [Token.mark "+", .mark "="] = [.mark "="] ∨
      [Token.mark "+", .mark "="] = [.mark "+", .mark "="] := .inr rfl
  exact .assign hk (isTemporary_temporary k) hop he.inert

/-- A sentence over texts that are in scope. -/
theorem code_sentence {atom : String → Prop} {s : String}
    (h : Sentence atom s) (hatom : ∀ a, atom a → Quiet Γ a) : Code types Γ (tokens s) [] [] [] := by
  have hquiet := h.quiet hatom
  obtain ⟨body, m, rfl, hbody, hclosing, hending⟩ := h
  refine .statement hquiet.inert fun u hu ↦ ?_
  rw [tokens_append_of_startsApart hclosing.startsApart, List.getLast?_append] at hu
  cases hlast : (tokens m).getLast? with
  | none => exact absurd (by simpa using hlast) hclosing.nonempty
  | some w =>
    rw [hlast] at hu
    obtain rfl : w = u := by simpa using hu
    exact hending w hlast

/-- An assignment to an output of the stage, which is referred to by its name or as a member. -/
theorem exists_reference (d : Dialect) {name : String} (hname : tokens name = [.word name]) :
    ∃ pre, IsReferencePrefix pre "o" ∧
      tokens s!"{d.outputReference name} = {e};" =
        pre ++ Token.word name :: .mark "=" :: (tokens e ++ [Token.mark ";"]) := by
  unfold Dialect.outputReference
  split
  · exact ⟨[], .inl rfl, tokens_assignment hname⟩
  · refine ⟨[.word "o", .mark "."], .inr rfl, ?_⟩
    have hends : EndsApart "o." := by decide
    have hmember : tokens "o." = [.word "o", .mark "."] := by decide
    simp only [toString_text, tokens_semicolon, tokens_equals]
    rw [tokens_append_of_endsApart hends, hmember, hname]
    rfl

theorem code_slot (d : Dialect) (slot : Nat) (he : Quiet Γ e) :
    Code types Γ (tokens s!"{d.outputReference (interpolatorName slot)} = {e};") [] [] [slot] := by
  obtain ⟨pre, hpre, htokens⟩ := exists_reference (e := e) d
    (tokens_word (isWord_interpolatorName slot) (interpolatorName_ne_empty slot))
  rw [htokens]
  exact .slot hpre he.inert

/-- The name of an output that is no value carried over to the pixel stage. -/
structure IsOutputName (w : String) : Prop where
  tokens : tokens w = [.word w]
  isTemporary : isTemporary w = false
  isInterpolatorName : isInterpolatorName w = false

theorem isOutputName_numbered (base : String) {c : Char} {cs : List Char}
    (hbase : base.toList = c :: cs) (hword : IsWord base) (hc : c ≠ 'v' ∧ c ≠ 'A') (index : Nat) :
    IsOutputName (base ++ toString index) := by
  have hlist : (base ++ toString index).toList = c :: (cs ++ (toString index).toList) := by
    rw [String.toList_append, hbase]
    rfl
  refine ⟨tokens_word (isWord_append hword (isPlainWord_toString index).1) ?_,
    isTemporary_of_toList hlist hc.1, isInterpolatorName_of_toList hlist hc.2⟩
  intro hempty
  rw [hempty] at hlist
  cases hlist

theorem code_output_name {w : String} (hw : IsOutputName w)
    (he : Quiet Γ e) : Code types Γ (tokens s!"{w} = {e};") [] [] [] := by
  rw [tokens_assignment hw.tokens]
  exact .output (show IsReferencePrefix [] "o" from .inl rfl) hw.isTemporary hw.isInterpolatorName
    he.inert

theorem code_output_member {w : String} (hw : IsOutputName w)
    (he : Quiet Γ e) : Code types Γ (tokens s!"o.{w} = {e};") [] [] [] := by
  have htokens : tokens s!"o.{w} = {e};" =
      [Token.word "o", Token.mark "."] ++ Token.word w :: .mark "=" :: (tokens e ++ [Token.mark ";"]) := by
    have hends : EndsApart "o." := by decide
    have hmember : tokens "o." = [.word "o", .mark "."] := by decide
    simp only [toString_text, tokens_semicolon, tokens_equals]
    rw [tokens_append_of_endsApart hends, hmember, hw.tokens]
    rfl
  rw [htokens]
  exact .output (.inr rfl) hw.isTemporary hw.isInterpolatorName he.inert

/-- A position or a color is written to an output of the stage. -/
theorem code_output {target : String}
    (htarget : target = b.dialect.positionOutput ∨
      ∃ index, target = (b.dialect.fragmentOutput index).2) (he : Quiet Γ e) :
    Code types Γ (tokens s!"{target} = {e};") [] [] [] := by
  obtain rfl | ⟨index, rfl⟩ := htarget
  · cases b
    · exact code_output_name (w := "gl_Position") ⟨by decide, by decide, by decide⟩ he
    · exact code_output_name (w := "gl_Position") ⟨by decide, by decide, by decide⟩ he
    · exact code_output_member (w := "Position") ⟨by decide, by decide, by decide⟩ he
  · cases b
    · exact code_output_name
        (isOutputName_numbered "_gl_FragData_" rfl (by decide) (by decide) index) he
    · exact code_output_name (w := "gl_FragColor") ⟨by decide, by decide, by decide⟩ he
    · have hcode : Code types Γ _ [] [] [] := code_output_member
        (isOutputName_numbered "Color" rfl (by decide) (by decide) index) he
      have htarget : (Backend.hlsl.dialect.fragmentOutput index).2 =
          "o." ++ ("Color" ++ toString index) := by
        rw [← String.append_assoc]
        rfl
      simpa [htarget, String.append_assoc] using hcode

/-- The attributes of branches and loops are statements. -/
theorem code_attribute {line : String}
    (h : b.dialect.flattenAttribute? = some line ∨ b.dialect.branchAttribute? = some line ∨
      b.dialect.unrollAttribute? = some line) : Code types Γ (tokens line) [] [] [] := by
  have hquiet : Quiet [] line ∧ Ending line := by
    cases b <;> obtain h | h | h := h <;> cases h <;> decide
  exact .statement (hquiet.1.inert.mono (List.nil_subset Γ)) hquiet.2

theorem code_attribute? {attribute? : Option String}
    (h : ∀ line ∈ attribute?, b.dialect.flattenAttribute? = some line ∨
      b.dialect.branchAttribute? = some line ∨ b.dialect.unrollAttribute? = some line) :
    Code types Γ (attribute?.toList.flatMap tokens) [] [] [] := by
  cases attribute? with
  | none => exact .nil
  | some line => simpa using code_attribute (h line rfl)

end Lines

/-! ## Loop headers -/

section Headers

variable {b : Backend} {type : String} {k : Nat} {types Γ : List String}

/-- The header of a loop after the name of its counter. -/
theorem exists_header (c : Emitter.Counter) (name : String) :
    ∃ test, c.header name ++ ")" = name ++ " = " ++ test ∧ Phrase (· = name) test := by
  have hname : Phrase (· = name) name := .atom rfl
  unfold Emitter.Counter.header
  split
  · next first last _ =>
    refine ⟨_, ?_, .before (m := ")") (.between (m := "; ++") (.between (m := " <= ")
      (.between (m := "; ") (Binary32.phrase_literal (Binary32.ofInt first.toInt)) (by decide) hname)
      (by decide) (Binary32.phrase_literal (Binary32.ofInt last.toInt))) (by decide) hname)
      (by decide)⟩
    simp [String.append_assoc]
  · refine ⟨_, ?_, .before (m := ")") (.after (m := "0.0;; ++") (by decide) hname) (by decide)⟩
    have hstart : " = 0.0;; ++" = " = " ++ "0.0;; ++" := by decide
    simp only [toString_text, String.append_assoc]
    rw [hstart, String.append_assoc]

theorem tokens_header (c : Emitter.Counter) (hscalar : b.dialect.typeName? .scalar = some type) :
    ∃ test, Phrase (· = temporary k) test ∧ tokens s!"for ({type} {c.header (temporary k)})" =
      .word "for" :: .mark "(" :: .word type :: .word (temporary k) :: .mark "=" :: tokens test := by
  obtain ⟨test, heq, htest⟩ := exists_header c (temporary k)
  refine ⟨test, htest, ?_⟩
  have hends : EndsApart "for (" := by decide
  have hfor : tokens "for (" = [.word "for", .mark "("] := by decide
  have hline : s!"for ({type} {c.header (temporary k)})" =
      "for (" ++ (type ++ " " ++ (temporary k ++ " = " ++ test)) := by
    rw [← heq]
    simp [String.append_assoc]
  rw [hline, tokens_append_of_endsApart hends, hfor, tokens_space, tokens_equals,
    b.tokens_typeName hscalar, tokens_temporary]
  rfl

/-- A loop around code in which its counter is visible. -/
theorem code_loop (c : Emitter.Counter) {locals declared : List String} {ts : List Token}
    (hscalar : b.dialect.typeName? .scalar = some type) (hmem : type ∈ types)
    (h : Code types (temporary k :: Γ) ts locals declared []) :
    Code types Γ
      (tokens s!"for ({type} {c.header (temporary k)})" ++
        Token.mark "\x7b" :: (ts ++ [Token.mark "\x7d"])) []
      (temporary k :: declared) [] := by
  obtain ⟨test, htest, htokens⟩ := tokens_header (k := k) c hscalar
  have hquiet : Quiet (temporary k :: Γ) test := htest.quiet fun a ha ↦
    ha ▸ quiet_temporary List.mem_cons_self
  rw [htokens]
  exact .loop hmem (isTemporary_temporary k) hquiet.inert h

end Headers

end ShaderGraph
