import Mathlib.Data.String.Basic
import ShaderGraph.Proofs.Data.Lists
import ShaderGraph.Proofs.Emission.Constants
import ShaderGraph.Proofs.Language.Literal
import ShaderGraph.Proofs.Trace.Events

/-!
# Swizzles select what their pattern says

A pattern of a swizzle has one to four characters, which are constants or letters of components that
the input has. Every such pattern is accepted and no other one, and whichever form the selection takes,
its value is made up of the components and constants that the pattern names.
-/

namespace ShaderGraph

open EmitM Emitter

/-! ## Patterns -/

/-- The letters of the components, in both cases. -/
def componentLetters : List (Char × Nat) :=
  [('x', 0), ('X', 0), ('y', 1), ('Y', 1), ('z', 2), ('Z', 2), ('w', 3), ('W', 3)]

/-- The character stands for a constant, or for a component that a value of the width has. -/
def IsSwizzleCharacter (width : Nat) (c : Char) : Prop :=
  c = '0' ∨ c = '1' ∨ ∃ i < width, (c, i) ∈ componentLetters

instance (width : Nat) (c : Char) : Decidable (IsSwizzleCharacter width c) :=
  inferInstanceAs (Decidable (_ ∨ _ ∨ _))

/-- The pattern selects from values of the width. -/
structure IsSwizzle (pattern : String) (width : Nat) : Prop where
  nonempty : 1 ≤ pattern.length
  short : pattern.length ≤ 4
  known : ∀ c ∈ pattern.toList, IsSwizzleCharacter width c

instance (pattern : String) (width : Nat) : Decidable (IsSwizzle pattern width) :=
  decidable_of_iff
    (1 ≤ pattern.length ∧ pattern.length ≤ 4 ∧
      pattern.toList.all fun c ↦ IsSwizzleCharacter width c)
    ⟨fun ⟨hne, hshort, hall⟩ ↦ ⟨hne, hshort, by simpa using hall⟩,
      fun h ↦ ⟨h.nonempty, h.short, by simpa using h.known⟩⟩

/-- What a character of a pattern selects. -/
def selectedComponent? (xs : List Binary32) (c : Char) : Option Binary32 :=
  if c = '0' then some .zero
  else if c = '1' then some .one
  else (componentLetters.lookup c).bind fun i ↦ xs[i]?

theorem toNat_toLower (c : Char) :
    c.toLower.toNat = if 65 ≤ c.toNat ∧ c.toNat ≤ 90 then c.toNat + 32 else c.toNat := by
  have hcapital : (65 ≤ c.toNat ∧ c.toNat ≤ 90) ↔ c.val ≥ 'A'.val ∧ c.val ≤ 'Z'.val := Iff.rfl
  unfold Char.toLower
  split
  · next h =>
    rw [if_pos (hcapital.mpr h)]
    obtain ⟨-, h⟩ := hcapital.mpr h
    have hsum : (c.val + ('a'.val - 'A'.val)).toNat = (c.toNat + 32) % 2 ^ 32 := UInt32.toNat_add ..
    exact hsum.trans (Nat.mod_eq_of_lt (by omega))
  · next h => rw [if_neg fun h' ↦ h (hcapital.mp h')]

theorem toLower_mem_iff {c : Char} :
    c.toLower ∈ ['x', 'y', 'z', 'w'] ↔ c ∈ componentLetters.map Prod.fst := by
  have h (a d : Char) : a = d ↔ a.toNat = d.toNat := Char.toNat_inj.symm
  simp only [List.mem_cons, componentLetters, List.map_cons, List.map_nil, h, List.not_mem_nil,
    toNat_toLower, Char.reduceToNat, or_false]
  split_ifs <;> omega

theorem toLower_eq_iff {c d : Char} (hd : d.toNat < 65) : c.toLower = d ↔ c = d := by
  rw [← Char.toNat_inj, ← Char.toNat_inj, toNat_toLower]
  split_ifs <;> omega

theorem componentIndex?_eq_none_iff {c : Char} : componentIndex? c = none ↔ c ∉ ['x', 'y', 'z', 'w'] := by
  rw [componentIndex?, List.findIdx?_eq_none_iff]
  simp only [decide_eq_false_iff_not]
  exact ⟨fun h hc ↦ h c hc rfl, fun h x hx heq ↦ h (heq ▸ hx)⟩

/-- The letters of a pattern are read in either case. -/
theorem componentIndex?_toLower (c : Char) :
    componentIndex? c.toLower = componentLetters.lookup c := by
  by_cases hc : c ∈ componentLetters.map Prod.fst
  · simp only [componentLetters, List.map_cons, List.map_nil, List.mem_cons, List.not_mem_nil,
      or_false] at hc
    rcases hc with rfl | rfl | rfl | rfl | rfl | rfl | rfl | rfl <;> rfl
  · rw [componentIndex?_eq_none_iff.mpr fun h ↦ hc (toLower_mem_iff.mp h), eq_comm,
      List.lookup_eq_none_iff]
    rintro e he
    simp only [bne_iff_ne]
    rintro rfl
    exact hc (List.mem_map_of_mem he)

theorem lookup_componentLetters_iff {c : Char} {i : Nat} :
    componentLetters.lookup c = some i ↔ (c, i) ∈ componentLetters := by
  refine ⟨entry_mem_of_lookup, fun h ↦ ?_⟩
  have hentries : ∀ e ∈ componentLetters, componentLetters.lookup e.1 = some e.2 := by decide
  exact hentries _ h

theorem utf8ByteSize_eq_length {s : String} (h : ∀ c ∈ s.toList, c.toNat ≤ 127) :
    s.utf8ByteSize = s.length := by
  rw [← String.length_toList, ← String.ofList_toList (s := s), String.utf8ByteSize_ofList, String.toList_ofList]
  generalize s.toList = cs at h
  induction cs with
  | nil => rfl
  | cons c cs ih =>
    obtain ⟨hc, hcs⟩ := List.forall_mem_cons.mp h
    rw [String.utf8Len_cons, ih hcs, Char.utf8Size_eq_one_iff.mpr hc, List.length_cons]

/-! ## Components -/

section Components

variable {env : EmitEnv} {n : Node} {pattern : String} {input : Variable} {width : Nat} {c : Char}

/-- The text of what a character of a pattern selects from an input. -/
def componentText (input : Variable) (c : Char) : String :=
  if c = '0' ∨ c = '1' then s!"{c}.0"
  else if input.type = .scalar then input.name
  else s!"{input.name}.{c.toLower}"

theorem toLower_isConstant_iff : (c.toLower = '0' ∨ c.toLower = '1') ↔ (c = '0' ∨ c = '1') := by
  rw [toLower_eq_iff (by decide), toLower_eq_iff (by decide)]

theorem swizzleComponent_of_known (hwidth : input.type.components? = some width)
    (hc : IsSwizzleCharacter width c) :
    swizzleComponent n pattern input c.toLower = .ok (componentText input c) := by
  unfold swizzleComponent componentText
  simp only [toLower_isConstant_iff]
  by_cases hconstant : c = '0' ∨ c = '1'
  · rw [if_pos hconstant, if_pos hconstant]
    rcases hconstant with rfl | rfl <;> rfl
  · obtain rfl | rfl | ⟨i, hi, hletter⟩ := hc
    · exact absurd (.inl rfl) hconstant
    · exact absurd (.inr rfl) hconstant
    · rw [if_neg hconstant, if_neg hconstant, componentIndex?_toLower,
        lookup_componentLetters_iff.mpr hletter, hwidth]
      dsimp only [Option.getD_some]
      rw [if_neg (not_le.mpr hi)]
      split_ifs <;> rfl

/-- Any other character is reported as a mismatch. -/
theorem swizzleComponent_of_unknown (hwidth : input.type.components? = some width)
    (hc : ¬ IsSwizzleCharacter width c) :
    ∃ message, swizzleComponent n pattern input c.toLower = .error (.mismatch n message) := by
  unfold swizzleComponent
  simp only [toLower_isConstant_iff]
  rw [if_neg fun h ↦ hc (h.imp_right .inl), componentIndex?_toLower]
  cases hlookup : componentLetters.lookup c with
  | none => exact ⟨_, rfl⟩
  | some i =>
    have hi : width ≤ i := by
      by_contra hlt
      exact hc (.inr (.inr ⟨i, not_le.mp hlt, lookup_componentLetters_iff.mp hlookup⟩))
    rw [hwidth]
    dsimp only [Option.getD_some]
    rw [if_pos hi]
    exact ⟨_, rfl⟩

/-- Characters of patterns are ASCII characters, and so are their lower forms. -/
theorem IsSwizzleCharacter.toNat_toLower_le (hc : IsSwizzleCharacter width c) :
    c.toLower.toNat ≤ 127 := by
  obtain rfl | rfl | ⟨i, -, hletter⟩ := hc
  · decide
  · decide
  · have hletters : ∀ e ∈ componentLetters, e.1.toLower.toNat ≤ 127 := by decide
    exact hletters _ hletter

theorem length_asciiLower (s : String) : (asciiLower s).length = s.length := by
  rw [← String.length_toList, asciiLower, String.toList_ofList, List.length_map, String.length_toList]

theorem utf8ByteSize_asciiLower (hknown : ∀ c ∈ pattern.toList, IsSwizzleCharacter width c) :
    (asciiLower pattern).utf8ByteSize = pattern.length := by
  rw [utf8ByteSize_eq_length, length_asciiLower]
  intro c hc
  rw [asciiLower, String.toList_ofList] at hc
  obtain ⟨d, hd, rfl⟩ := List.mem_map.mp hc
  exact (hknown d hd).toNat_toLower_le

end Components

/-! ## Acceptance -/

theorem ValueType.ofComponents?_eq_none {k : Nat} (h : ¬ (1 ≤ k ∧ k ≤ 4)) : ofComponents? k = none := by
  unfold ofComponents?
  split <;> first | rfl | exact absurd (by decide) h

theorem ValueType.exists_ofComponents? {k : Nat} (h : 1 ≤ k) (h' : k ≤ 4) :
    ∃ t, ofComponents? k = some t := by
  match k with
  | 1 | 2 | 3 | 4 => exact ⟨_, rfl⟩
  | 0 | k + 5 => omega

theorem ValueType.components?_of_ofComponents? {k : Nat} {t : ValueType}
    (h : ofComponents? k = some t) : t.components? = some k := by
  unfold ofComponents? at h
  split at h <;> cases h <;> rfl

/-- An output is bound to a variable that has the value of an expression: to an existing variable with
that name, or to a new temporary to which the expression is assigned. -/
inductive EmitState.BindsValue (d : Dialect) (p : Pin) (s : EmitState) :
    ValueType → String → EmitState → Prop
  | forward (v : Variable) : s.BindsValue d p v.type v.name (s.bindPin p.id v)
  | assign {type : ValueType} {name expr : String} (hname : d.typeName? type = some name) :
    s.BindsValue d p type expr
      ((s.allocate p.id type).write s!"{name} {temporary s.nextVariable} = {expr};")

/-- The forms that a selection takes. -/
inductive IsSelection (d : Dialect) (input : Variable) (pattern : String) (type : ValueType) :
    String → Prop
  | identity (htype : type = input.type)
    (hstart : pattern.toList.map Char.toLower <+: ['x', 'y', 'z', 'w']) :
    IsSelection d input pattern type input.name
  | single {c : Char} (hpattern : pattern.toList = [c]) :
    IsSelection d input pattern type (componentText input c)
  | construct :
    IsSelection d input pattern type (d.construct type (pattern.toList.map (componentText input)))
  | native (hinput : input.type ≠ .scalar) (hletters : ∀ c ∈ pattern.toList, ¬ (c = '0' ∨ c = '1')) :
    IsSelection d input pattern type s!"{input.name}.{asciiLower pattern}"

section Acceptance

variable {env : EmitEnv} {demand : Demand} {n : Node} {pattern : String} {input : Variable}
  {width : Nat} {s t : EmitState} {p : Pin}

theorem returns_assignOutput {type : ValueType} {expr name : String} (hp : n.output? "Output" = some p)
    (hname : env.dialect.typeName? type = some name) :
    Returns env (assignOutput n type expr) s ()
      ((s.allocate p.id type).write s!"{name} {temporary s.nextVariable} = {expr};") := by
  simp only [assignOutput, returns_bind, returns_emitOutput, returns_assign]
  exact ⟨_, _, ⟨p, hp, rfl, rfl⟩, name, hname, rfl⟩

theorem mapM_swizzleComponent (hwidth : input.type.components? = some width)
    (hknown : ∀ c ∈ pattern.toList, IsSwizzleCharacter width c) {lower : String} :
    (asciiLower pattern).toList.mapM (swizzleComponent n lower input) =
      .ok (pattern.toList.map (componentText input)) := by
  rw [asciiLower, String.toList_ofList]
  exact mapM_map_eq_pure fun c hc ↦ swizzleComponent_of_known hwidth (hknown c hc)

theorem mapM_swizzleComponent_of_unknown (n : Node) (lower : String)
    (hwidth : input.type.components? = some width)
    (hunknown : ∃ c ∈ pattern.toList, ¬ IsSwizzleCharacter width c) :
    ∃ message, (asciiLower pattern).toList.mapM (swizzleComponent n lower input) =
      .error (.mismatch n message) := by
  rw [asciiLower, String.toList_ofList]
  obtain ⟨e, hfail, message, rfl⟩ : ∃ e, (pattern.toList.map Char.toLower).mapM
      (swizzleComponent n lower input) = .error e ∧ ∃ message, e = .mismatch n message := by
    refine exists_mapM_eq_error ?_ fun d hd e he ↦ ?_
    · obtain ⟨c, hc, hunknown⟩ := hunknown
      obtain ⟨message, hmessage⟩ := swizzleComponent_of_unknown hwidth hunknown
      exact ⟨c.toLower, List.mem_map_of_mem hc, _, hmessage⟩
    · obtain ⟨c, hc, rfl⟩ := List.mem_map.mp hd
      by_cases hknown : IsSwizzleCharacter width c
      · cases (swizzleComponent_of_known hwidth hknown).symm.trans he
      · obtain ⟨message, hmessage⟩ := swizzleComponent_of_unknown hwidth hknown
        exact ⟨message, Except.error.inj (he.symm.trans hmessage)⟩
  exact ⟨message, hfail⟩

/-- One of the forms is chosen, and the output is bound accordingly. -/
theorem exists_returns_selection (env : EmitEnv) (input : Variable) (t : EmitState) {type : ValueType}
    (htype : ValueType.ofComponents? pattern.length = some type) (hp : n.output? "Output" = some p) :
    let components := pattern.toList.map (componentText input)
    ∃ expr u, Returns env (if type = input.type ∧
          (asciiLower pattern).toList.isPrefixOf ['x', 'y', 'z', 'w'] then forwardOutput n input
        else if (asciiLower pattern).toList.any isConstantComponent ∨ input.type = .scalar then
          if type = .scalar then assignOutput n type (components.headD "")
          else do assignOutput n type ((← dialect).construct type components)
        else assignOutput n type s!"{input.name}.{asciiLower pattern}") t () u ∧
      t.BindsValue env.dialect p type expr u ∧ IsSelection env.dialect input pattern type expr := by
  have hvoid : type ≠ .void := by
    rintro rfl
    cases ValueType.components?_of_ofComponents? htype
  obtain ⟨name, hname⟩ := env.dialect.isSome_typeName? hvoid
  have hlower : (asciiLower pattern).toList = pattern.toList.map Char.toLower := String.toList_ofList
  intro components
  split_ifs with hidentity hconstant hscalar
  · obtain ⟨rfl, hstart⟩ := hidentity
    refine ⟨input.name, t.bindPin p.id input, ?_, .forward input, .identity rfl ?_⟩
    · exact returns_bind.mpr ⟨input, _, returns_bindOutput.mpr ⟨p, hp, rfl, rfl⟩, rfl⟩
    · rw [← hlower]
      exact List.isPrefixOf_iff_prefix.mp hstart
  · obtain ⟨c, hc⟩ : ∃ c, pattern.toList = [c] := by
      subst hscalar
      have hlength := ValueType.components?_of_ofComponents? htype
      rw [← List.length_eq_one_iff, String.length_toList]
      exact (Option.some.inj hlength).symm
    refine ⟨componentText input c, _, ?_, .assign hname, .single hc⟩
    have hcomponents : components = [componentText input c] := by
      rw [show components = pattern.toList.map (componentText input) from rfl, hc, List.map_singleton]
    rw [hcomponents]
    exact returns_assignOutput hp hname
  · refine ⟨_, _, ?_, .assign hname, .construct⟩
    exact returns_bind.mpr ⟨_, t, returns_dialect.mpr ⟨rfl, rfl⟩, returns_assignOutput hp hname⟩
  · rw [not_or] at hconstant
    refine ⟨_, _, returns_assignOutput hp hname, .assign hname, .native hconstant.2 ?_⟩
    intro c hc hletter
    refine hconstant.1 (List.any_eq_true.mpr ⟨c.toLower, ?_, ?_⟩)
    · rw [hlower]
      exact List.mem_map_of_mem hc
    · have hlower := toLower_isConstant_iff.mpr hletter
      simpa [isConstantComponent] using hlower

/-- A pattern that selects is accepted. -/
theorem IsSwizzle.exists_returns (h : IsSwizzle pattern width)
    (hinput : Returns env (vectorInput demand n "Input") s input t)
    (hwidth : input.type.components? = some width) (hp : n.output? "Output" = some p) :
    ∃ type expr u, ValueType.ofComponents? pattern.length = some type ∧
      Returns env (swizzle demand n pattern) s () u ∧ t.BindsValue env.dialect p type expr u ∧
      IsSelection env.dialect input pattern type expr := by
  obtain ⟨type, htype⟩ := ValueType.exists_ofComponents? h.nonempty h.short
  obtain ⟨expr, u, hreturns, hbinds, hselection⟩ :=
    exists_returns_selection env input t htype hp
  refine ⟨type, expr, u, htype, ?_, hbinds, hselection⟩
  refine returns_bind.mpr ⟨input, t, hinput, ?_⟩
  simp only [utf8ByteSize_asciiLower h.known, htype]
  exact returns_bind.mpr ⟨_, t, returns_liftExcept.mpr ⟨mapM_swizzleComponent hwidth h.known, rfl⟩,
    hreturns⟩

/-- Any other pattern is reported as a mismatch. -/
theorem ends_swizzle_of_not (h : ¬ IsSwizzle pattern width)
    (hinput : Returns env (vectorInput demand n "Input") s input t)
    (hwidth : input.type.components? = some width) :
    ∃ message, Ends env (swizzle demand n pattern) s (.error (.mismatch n message)) t := by
  cases htype : ValueType.ofComponents? (asciiLower pattern).utf8ByteSize with
  | none =>
    refine ⟨s!"swizzle '{asciiLower pattern}' must have 1 to 4 components", ends_bind_ok hinput ?_⟩
    simp only [htype]
    rfl
  | some type =>
    have hunknown : ∃ c ∈ pattern.toList, ¬ IsSwizzleCharacter width c := by
      by_contra hknown
      push Not at hknown
      rw [utf8ByteSize_asciiLower hknown] at htype
      by_cases hlength : 1 ≤ pattern.length ∧ pattern.length ≤ 4
      · exact h ⟨hlength.1, hlength.2, hknown⟩
      · cases (ValueType.ofComponents?_eq_none hlength).symm.trans htype
    obtain ⟨message, hfail⟩ :=
      mapM_swizzleComponent_of_unknown n (asciiLower pattern) hwidth hunknown
    refine ⟨message, ends_bind_ok hinput ?_⟩
    simp only [htype, hfail]
    rfl

end Acceptance

/-! ## Selections -/

/-- The text is an expression with these components. -/
def Dialect.Denotes (d : Dialect) (ρ : Valuation) (text : String) (xs : List Binary32) : Prop :=
  ∃ e, d.expression? text = some e ∧ e.components? d ρ = some xs

section Selections

variable {d : Dialect} {ρ : Valuation} {input : Variable} {o : Expression} {xs : List Binary32}
  {width : Nat} {pattern : String} {c : Char}

/-- An input whose text is an expression with as many components as its type has. Vectors are
expressions of which components can be selected. -/
structure IsSelectable (d : Dialect) (ρ : Valuation) (input : Variable) (xs : List Binary32) : Prop where
  denotes : ∃ o, d.expression? input.name = some o ∧ o.components? d ρ = some xs ∧
    (input.type = .scalar ∨ o.takesSuffixes)
  width : input.type.components? = some xs.length

theorem components?_select {field : String} (h : o.components? d ρ = some xs) :
    (Expression.select o field).components? d ρ = selectComponents? xs field := by
  cases o with
  | name text =>
    rw [Expression.components?] at h
    rw [Expression.components?, h]
  | _ =>
    rw [Expression.components?, h]
    · rfl
    · rintro _ h
      cases h

theorem ValueType.two_le_of_ne_scalar {t : ValueType} (h : t.components? = some width)
    (hne : t ≠ .scalar) : 2 ≤ width := by
  cases t <;> cases h <;> first | decide | exact absurd rfl hne

theorem letter_cases {i : Nat} (h : (c, i) ∈ componentLetters) :
    ¬ (c = '0' ∨ c = '1') ∧ componentNames.idxOf? c.toLower = some i ∧
      isWordCharacter c.toLower = true := by
  have hletters : ∀ e ∈ componentLetters, ¬ (e.1 = '0' ∨ e.1 = '1') ∧
      componentNames.idxOf? e.1.toLower = some e.2 ∧ isWordCharacter e.1.toLower = true := by decide
  exact hletters _ h

/-- What a letter selects is what it selects as a field. -/
theorem selectedComponent?_of_letter {i : Nat} (h : (c, i) ∈ componentLetters) :
    selectedComponent? xs c = (componentNames.idxOf? c.toLower).bind fun i ↦ xs[i]? := by
  obtain ⟨hconstant, hindex, -⟩ := letter_cases h
  rw [not_or] at hconstant
  rw [selectedComponent?, if_neg hconstant.1, if_neg hconstant.2, hindex,
    lookup_componentLetters_iff.mpr h]

theorem mapM_selectedComponent? {cs : List Char}
    (h : ∀ c ∈ cs, ∃ i, (c, i) ∈ componentLetters) :
    cs.mapM (selectedComponent? xs) =
      (cs.map Char.toLower).mapM fun c ↦ (componentNames.idxOf? c).bind fun i ↦ xs[i]? := by
  induction cs with
  | nil => rfl
  | cons c cs ih =>
    obtain ⟨⟨i, hc⟩, hcs⟩ := List.forall_mem_cons.mp h
    rw [List.map_cons, List.mapM_cons, List.mapM_cons, ih hcs, selectedComponent?_of_letter hc]

theorem denotes_constant (text : String) {x : Binary32}
    (hread : d.expression? text = some (.number text)) (hx : Binary32.ofText? text.toList = some x) :
    d.Denotes ρ text [x] := by
  refine ⟨_, hread, ?_⟩
  rw [Expression.components?, hx]
  rfl

theorem toList_char (c : Char) : (toString c).toList = [c] :=
  String.toList_singleton c

/-- What a character of a pattern contributes denotes what it selects. -/
theorem IsSelectable.denotes_component (h : IsSelectable d ρ input xs)
    (hc : IsSwizzleCharacter xs.length c) :
    ∃ x, selectedComponent? xs c = some x ∧ d.Denotes ρ (componentText input c) [x] := by
  obtain rfl | rfl | ⟨i, hi, hletter⟩ := hc
  · exact ⟨.zero, rfl, denotes_constant "0.0" rfl (by decide +kernel)⟩
  · exact ⟨.one, rfl, denotes_constant "1.0" rfl (by decide +kernel)⟩
  · obtain ⟨hconstant, hindex, hword⟩ := letter_cases hletter
    obtain ⟨o, hread, hvalue, ho⟩ := h.denotes
    refine ⟨xs[i], ?_, ?_⟩
    · rw [selectedComponent?_of_letter hletter, hindex]
      exact List.getElem?_eq_getElem hi
    rw [componentText, if_neg hconstant]
    split_ifs with hscalar
    · have hlength : xs.length = 1 := by
        have hwidth := h.width
        rw [hscalar] at hwidth
        exact (Option.some.inj hwidth).symm
      obtain ⟨x, rfl⟩ := List.length_eq_one_iff.mp hlength
      obtain rfl : i = 0 := Nat.lt_one_iff.mp hi
      exact ⟨o, hread, hvalue⟩
    · have hfield := toList_char c.toLower
      have hlength : (toString c.toLower).length = 1 := by
        rw [← String.length_toList, hfield, List.length_singleton]
      have hne : toString c.toLower ≠ "" := fun hempty ↦ by
        rw [hempty] at hlength
        cases hlength
      have hselect := expression?_select hread (ho.resolve_left hscalar) hne fun d hd ↦ by
        rw [hfield, List.mem_singleton] at hd
        rwa [hd]
      refine ⟨_, hselect, ?_⟩
      rw [components?_select hvalue, selectComponents?, hlength, if_pos, hfield]
      · simp [hindex, hi]
      · exact ⟨ValueType.two_le_of_ne_scalar h.width hscalar, le_rfl, by decide⟩

/-- Expressions with one component each, in a row. -/
theorem exists_of_denotes_each {texts : List String} {ys : List Binary32}
    (h : List.Forall₂ (fun text y ↦ d.Denotes ρ text [y]) texts ys) :
    ∃ es, List.Forall₂ (fun text e ↦ d.expression? text = some e) texts es ∧
      Expression.allComponents? d ρ es = some ys := by
  induction h with
  | nil => exact ⟨[], .nil, rfl⟩
  | cons hdenotes _ ih =>
    obtain ⟨e, hread, hvalue⟩ := hdenotes
    obtain ⟨es, hreads, hvalues⟩ := ih
    refine ⟨e :: es, .cons hread hreads, ?_⟩
    rw [Expression.allComponents?, hvalue, hvalues]
    rfl

/-- The letters of all components in their order select all of a value. -/
theorem mapM_componentNames (hlength : xs.length ≤ 4) :
    (componentNames.take xs.length).mapM
      (fun c ↦ (componentNames.idxOf? c).bind fun i ↦ xs[i]?) = some xs := by
  match xs with
  | [] | [_] | [_, _] | [_, _, _] | [_, _, _, _] => rfl
  | _ :: _ :: _ :: _ :: _ :: _ =>
    simp only [List.length_cons] at hlength
    omega

/-- Whatever form a selection has, it denotes what the characters of the pattern select. -/
theorem IsSelection.denotes {backend : Backend} {type : ValueType} {expr : String}
    (hform : IsSelection backend.dialect input pattern type expr)
    (hpattern : IsSwizzle pattern xs.length)
    (htype : ValueType.ofComponents? pattern.length = some type)
    (h : IsSelectable backend.dialect ρ input xs) :
    ∃ ys, pattern.toList.mapM (selectedComponent? xs) = some ys ∧
      backend.dialect.Denotes ρ expr ys := by
  obtain ⟨ys, hys, hall⟩ := exists_mapM_eq_some fun c hc ↦
    h.denotes_component (hpattern.known c hc)
  refine ⟨ys, hys, ?_⟩
  have hlength : ys.length = pattern.length := hall.length_eq.symm.trans String.length_toList
  have hdenotes := h.denotes
  cases hform with
  | identity hinput hstart =>
    -- All letters in their order select the input as it is.
    have hwidth : pattern.length = xs.length := by
      have hcomponents := ValueType.components?_of_ofComponents? htype
      rw [hinput, h.width] at hcomponents
      exact (Option.some.inj hcomponents).symm
    have hnames : pattern.toList.map Char.toLower = componentNames.take xs.length := by
      rw [← hwidth, ← String.length_toList, ← List.length_map Char.toLower]
      exact List.prefix_iff_eq_take.mp hstart
    have hletters : ∀ c ∈ pattern.toList, ∃ i, (c, i) ∈ componentLetters := fun c hc ↦ by
      have hletter : c ∈ componentLetters.map Prod.fst :=
        toLower_mem_iff.mp (hstart.subset (List.mem_map_of_mem hc))
      obtain ⟨⟨c, i⟩, he, rfl⟩ := List.mem_map.mp hletter
      exact ⟨i, he⟩
    rw [mapM_selectedComponent? hletters, hnames, mapM_componentNames (hwidth ▸ hpattern.short)] at hys
    obtain ⟨o, hread, hvalue, -⟩ := hdenotes
    exact ⟨o, hread, hvalue.trans hys⟩
  | single hsingle =>
    rw [hsingle] at hall
    obtain ⟨y, ys, hy, hnil, rfl⟩ := List.forall₂_cons_left_iff.mp hall
    obtain rfl := List.forall₂_nil_left_iff.mp hnil
    exact hy
  | construct =>
    obtain ⟨es, hreads, hvalues⟩ := exists_of_denotes_each (List.forall₂_map_left_iff.mpr hall)
    have hne : pattern.toList.map (componentText input) ≠ [] := by
      intro hempty
      have hzero := congrArg List.length hempty
      rw [List.length_map, String.length_toList, List.length_nil] at hzero
      exact absurd hpattern.nonempty (by omega)
    exact ⟨_, expression?_construct backend type hreads hne,
      components?_construct backend (hlength.symm ▸ htype) hvalues⟩
  | native hinput hconstants =>
    have hletters : ∀ c ∈ pattern.toList, ∃ i, (c, i) ∈ componentLetters := fun c hc ↦ by
      obtain hzero | hone | ⟨i, -, hletter⟩ := hpattern.known c hc
      · exact absurd (.inl hzero) (hconstants c hc)
      · exact absurd (.inr hone) (hconstants c hc)
      · exact ⟨i, hletter⟩
    obtain ⟨o, hread, hvalue, ho⟩ := hdenotes
    have hlower : (asciiLower pattern).toList = pattern.toList.map Char.toLower :=
      String.toList_ofList
    have hne : asciiLower pattern ≠ "" := fun hempty ↦ by
      have hzero := length_asciiLower pattern
      rw [hempty] at hzero
      exact absurd hpattern.nonempty (by rw [← hzero]; decide)
    have hselect := expression?_select hread (ho.resolve_left hinput) hne fun d hd ↦ by
      rw [hlower] at hd
      obtain ⟨c, hc, rfl⟩ := List.mem_map.mp hd
      obtain ⟨i, hletter⟩ := hletters c hc
      exact (letter_cases hletter).2.2
    refine ⟨_, hselect, ?_⟩
    rw [components?_select hvalue, selectComponents?, length_asciiLower, if_pos, hlower,
      ← mapM_selectedComponent? hletters, hys]
    exact ⟨ValueType.two_le_of_ne_scalar h.width hinput, hpattern.nonempty, hpattern.short⟩

end Selections

/-! ## Swizzles -/

section Swizzles

variable {env : EmitEnv} {n : Node} {pattern : String} {input : Variable} {width : Nat}
  {s t : EmitState} {p : Pin}

/-- A swizzle of a scalar or vector is emitted if and only if its pattern selects from values of that
width, and any other pattern is reported as a mismatch. The output is bound to a value with as many
components as the pattern has characters, and they are what the characters select from the input. -/
theorem emitKind_swizzle_iff (demand : Demand) (hkind : n.kind = .swizzle pattern)
    (hp : n.output? "Output" = some p)
    (hinput : Returns env (vectorInput demand n "Input") s input t)
    (hwidth : input.type.components? = some width) :
    ((∃ u, Returns env (emitKind demand n) s () u) ↔ IsSwizzle pattern width) ∧
    (¬ IsSwizzle pattern width →
      ∃ message, Ends env (emitKind demand n) s (.error (.mismatch n message)) t) ∧
    (IsSwizzle pattern width → ∃ type expr u, Returns env (emitKind demand n) s () u ∧
      t.BindsValue env.dialect p type expr u ∧ type.components? = some pattern.length ∧
      ∀ ρ xs, IsSelectable env.dialect ρ input xs →
        ∃ ys, pattern.toList.mapM (selectedComponent? xs) = some ys ∧
          env.dialect.Denotes ρ expr ys) := by
  have hemit : emitKind demand n = swizzle demand n pattern := by
    unfold emitKind
    rw [hkind]
  rw [hemit]
  refine ⟨⟨fun ⟨u, hu⟩ ↦ ?_, fun h ↦ ?_⟩, fun h ↦ ends_swizzle_of_not h hinput hwidth, fun h ↦ ?_⟩
  · by_contra h
    obtain ⟨message, hends⟩ := ends_swizzle_of_not h hinput hwidth
    cases (show _ = _ from hu).symm.trans hends
  · obtain ⟨-, -, u, -, hreturns, -⟩ := h.exists_returns hinput hwidth hp
    exact ⟨u, hreturns⟩
  · obtain ⟨type, expr, u, htype, hreturns, hbinds, hselection⟩ := h.exists_returns hinput hwidth hp
    refine ⟨type, expr, u, hreturns, hbinds, ValueType.components?_of_ofComponents? htype, ?_⟩
    intro ρ xs hselectable
    obtain rfl : width = xs.length := Option.some.inj (hwidth.symm.trans hselectable.width)
    exact hselection.denotes h htype hselectable

/-- A uniform with three components that a swizzle takes apart. -/
def shuffled (pattern : String) : Graph :=
  .numbered [.pixelOutput {}, .swizzle pattern, .uniform "place" .vec3]
    [⟨1, "Output", 0, "Input"⟩, ⟨2, "Output", 1, "Input"⟩]

/-- The node that takes it apart. -/
def shuffleNode (pattern : String) : Node :=
  .ofKind (Graph.nodeNumber 1) (Graph.pinNumber 1) (.swizzle pattern)

/-- A selection with a constant, and one of a component that three components do not have. -/
theorem emitKind_swizzle_shuffled :
    (∃ expr u, Returns ⟨shuffled "Z1x", {}⟩ (emitKind evaluate (shuffleNode "Z1x")) {} () u ∧
      Dialect.glsl.Denotes (fun _ ↦ some [.half, .zero, .one]) expr [.one, .one, .half]) ∧
    ∃ message u, Ends ⟨shuffled "xw", {}⟩ (emitKind evaluate (shuffleNode "xw")) {}
      (.error (.mismatch (shuffleNode "xw") message)) u := by
  have hwidth : (⟨"place", .vec3⟩ : Variable).type.components? = some 3 := rfl
  constructor
  · obtain ⟨t, hinput⟩ : ∃ t, Returns ⟨shuffled "Z1x", {}⟩
        (vectorInput evaluate (shuffleNode "Z1x") "Input") {} ⟨"place", .vec3⟩ t :=
      toOption_eq_some_iff_returns.mp (by decide +kernel)
    obtain ⟨-, -, hselects⟩ := emitKind_swizzle_iff evaluate rfl rfl hinput hwidth
    obtain ⟨type, expr, u, hreturns, -, -, hdenotes⟩ := hselects (by decide)
    obtain ⟨ys, hys, hexpr⟩ := hdenotes (fun _ ↦ some [.half, .zero, .one]) [.half, .zero, .one]
      ⟨⟨.name "place", rfl, rfl, .inr rfl⟩, rfl⟩
    refine ⟨expr, u, hreturns, ?_⟩
    cases (show _ = some [.one, .one, .half] by decide).symm.trans hys
    exact hexpr
  · obtain ⟨t, hinput⟩ : ∃ t, Returns ⟨shuffled "xw", {}⟩
        (vectorInput evaluate (shuffleNode "xw") "Input") {} ⟨"place", .vec3⟩ t :=
      toOption_eq_some_iff_returns.mp (by decide +kernel)
    obtain ⟨-, hfails, -⟩ := emitKind_swizzle_iff evaluate rfl rfl hinput hwidth
    obtain ⟨message, hends⟩ := hfails (by decide)
    exact ⟨message, t, hends⟩

end Swizzles

end ShaderGraph
