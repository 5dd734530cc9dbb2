import ShaderGraph.Proofs.Scope.Lines
import ShaderGraph.Proofs.Tables.Registered

/-!
# Members of stages

The members of the structs of a stage are declared by the lines of two blocks and by lines that the
assembly adds for the features that are required. A stage is closed if its bodies, and whatever else
may get into them, select members that are declared in this way.
-/

namespace ShaderGraph

/-! ## Members in code

Targets with structs name the inputs and outputs of a stage as members of two variables. `Qualified`
says of the tokens of some code that these variables occur only where they select a member, and that
each member that is selected is one of those given. Phrases over qualified texts are qualified.
-/

/-- The members of the struct variables. -/
abbrev Members := String → String → Prop

/-- Wherever a struct variable occurs, it selects one of its members. -/
def Qualified (M : Members) : List Token → Prop
  | [] => True
  | .mark _ :: ts => Qualified M ts
  | .word w :: ts =>
    (w ∈ structVariables →
      ∃ member rest, ts = .mark "." :: .word member :: rest ∧ M w member) ∧ Qualified M ts

/-- A word that is no struct variable. -/
def IsOtherWord (s : String) : Prop :=
  IsWord s ∧ s ∉ structVariables

instance (s : String) : Decidable (IsOtherWord s) :=
  inferInstanceAs (Decidable (_ ∧ _))

section Qualified

variable {M N : Members} {ts us : List Token} {w m : String}

@[simp]
theorem qualified_nil : Qualified M [] :=
  trivial

@[simp]
theorem qualified_mark : Qualified M (.mark m :: ts) ↔ Qualified M ts :=
  .rfl

@[simp]
theorem qualified_word (hw : w ∉ structVariables) :
    Qualified M (.word w :: ts) ↔ Qualified M ts := by
  simp [Qualified, hw]

theorem Qualified.mono (h : Qualified M ts) (hsub : ∀ w member, M w member → N w member) :
    Qualified N ts := by
  induction ts with
  | nil => trivial
  | cons t ts ih =>
    cases t with
    | mark m => exact ih h
    | word w =>
      refine ⟨fun hw ↦ ?_, ih h.2⟩
      obtain ⟨member, rest, hts, hmember⟩ := h.1 hw
      exact ⟨member, rest, hts, hsub w member hmember⟩

theorem Qualified.append (h : Qualified M ts) (h' : Qualified M us) : Qualified M (ts ++ us) := by
  induction ts with
  | nil => exact h'
  | cons t ts ih =>
    cases t with
    | mark m => exact ih h
    | word w =>
      refine ⟨fun hw ↦ ?_, ih h.2⟩
      obtain ⟨member, rest, rfl, hmember⟩ := h.1 hw
      exact ⟨member, rest ++ us, rfl, hmember⟩

theorem qualified_flatMap {α : Type} {xs : List α} {f : α → List Token}
    (h : ∀ x ∈ xs, Qualified M (f x)) : Qualified M (xs.flatMap f) := by
  induction xs with
  | nil => trivial
  | cons x xs ih =>
    exact (h x List.mem_cons_self).append (ih fun y hy ↦ h y (List.mem_cons_of_mem x hy))

/-- Code that names no struct variable is qualified. -/
theorem qualified_of_notMem (h : ∀ name ∈ structVariables, Token.word name ∉ ts) :
    Qualified M ts := by
  induction ts with
  | nil => trivial
  | cons t ts ih =>
    have hrest := ih fun name hname hmem ↦ h name hname (List.mem_cons_of_mem t hmem)
    cases t with
    | mark m => exact hrest
    | word w => exact ⟨fun hw ↦ absurd List.mem_cons_self (h w hw), hrest⟩

/-- The selection of a member. -/
theorem qualified_select (h : M w m) (hm : m ∉ structVariables) :
    Qualified M [.word w, .mark ".", .word m] :=
  ⟨fun _ ↦ ⟨m, [], rfl, h⟩, (qualified_word hm).mpr trivial⟩

end Qualified

/-! ### Texts -/

/-- A text without braces in which the struct variables select their members. -/
structure Selects (M : Members) (s : String) : Prop where
  qualified : Qualified M (tokens s)
  isBraceFree : IsBraceFree s.toList

theorem IsBraceFree.append {as bs : List Char} (ha : IsBraceFree as) (hb : IsBraceFree bs) :
    IsBraceFree (as ++ bs) := by
  simp only [IsBraceFree, List.mem_append, not_or]
  exact ⟨⟨ha.1, hb.1⟩, ha.2, hb.2⟩

namespace Selects

variable {M N : Members} {a b s : String}

theorem mono (h : Selects M s) (hsub : ∀ w member, M w member → N w member) : Selects N s :=
  ⟨h.qualified.mono hsub, h.isBraceFree⟩

theorem append (ha : Selects M a) (hb : Selects M b)
    (htokens : tokens (a ++ b) = tokens a ++ tokens b) : Selects M (a ++ b) where
  qualified := htokens ▸ ha.qualified.append hb.qualified
  isBraceFree := by
    rw [String.toList_append]
    exact ha.isBraceFree.append hb.isBraceFree

/-- Syntax that names no struct variable. -/
theorem of_quiet {names : List String} (h : Quiet names s)
    (hfree : ∀ name ∈ structVariables, Token.word name ∉ tokens s) : Selects M s :=
  ⟨qualified_of_notMem hfree, h.isBraceFree⟩

theorem of_isOtherWord (h : IsOtherWord s) : Selects M s := by
  have hquiet : Quiet [s] s := .of_word h.1 fun _ ↦ List.mem_singleton_self s
  refine of_quiet hquiet ?_
  intro name hname hmem
  by_cases hs : s = ""
  · subst hs
    cases hmem
  · rw [tokens_word h.1 hs, List.mem_singleton, Token.word.injEq] at hmem
    exact h.2 (hmem ▸ hname)

end Selects

variable {M : Members} {s : String}

theorem IsSyntaxWord.isOtherWord (h : IsSyntaxWord s) : IsOtherWord s :=
  ⟨h.1.1, h.2⟩

/-- A phrase selects members if its atoms do. -/
theorem Phrase.selects {atom : String → Prop} (h : Phrase atom s)
    (hatom : ∀ a, atom a → Selects M a) : Selects M s := by
  induction h with
  | atom h => exact hatom _ h
  | word h => exact .of_isOtherWord h.isOtherWord
  | after hm _ hb =>
    exact (Selects.of_quiet hm.quiet hm.structFree).append hb
      (tokens_append_of_endsApart hm.endsApart)
  | before _ hm ha =>
    exact ha.append (.of_quiet hm.quiet hm.structFree) (tokens_append_of_startsApart hm.startsApart)
  | @between a m b _ hm _ ha hb =>
    have hne : m ≠ "" := by
      rintro rfl
      exact hm.1.nonempty rfl
    exact (ha.append (.of_quiet hm.1.quiet hm.1.structFree)
      (tokens_append_of_startsApart hm.1.startsApart)).append hb
        (tokens_append_of_endsApart (hm.2.endsApart.append hne))

theorem Sentence.selects {atom : String → Prop} (h : Sentence atom s)
    (hatom : ∀ a, atom a → Selects M a) : Selects M s := by
  obtain ⟨body, m, rfl, hbody, hclosing, -⟩ := h
  exact (hbody.before hclosing).selects hatom

theorem Variable.selects_cast {v : Variable} {t : ValueType} {text : String} (b : Backend)
    (h : v.cast t b.dialect = .ok text) (hv : Selects M v.name) : Selects M text := by
  have hself : Phrase (· = v.name) v.name := .atom rfl
  refine (phrase_cast h hself).selects ?_
  rintro _ rfl
  exact hv

/-! ## Closed stages -/

/-! ### Member lines -/

/-- The line declares the member with a type and a semantic. -/
def IsMemberLine (member line : String) : Prop :=
  ∃ type semantic, tokens line =
    [.word type, .word member, .mark ":", .word semantic, .mark ";"]

/-- A line that declares some member. -/
def DeclaresMember (line : String) : Prop :=
  IsLine line ∧ ∃ member, IsMemberLine member line

/-- The block whose lines declare the members of a struct variable. -/
def structBlock? : String → Option Block
  | "i" => some .inputs
  | "o" => some .outputs
  | _ => none

namespace Assembly

/-- The members that are declared before and after those of a block. -/
def addedMembers (r : Requirements) : ShaderStage → Block → List String × List String
  | .vertex, .inputs => ([], if r.instanceId then ["uint InstanceId : SV_InstanceID;"] else [])
  | .pixel, .inputs =>
    ([positionMember], if r.frontFace then ["bool FrontFace : SV_IsFrontFace;"] else [])
  | .vertex, .outputs => ([positionMember], [])
  | _, _ => ([], [])

/-- The lines of the members of a struct. -/
def memberLines (r : Requirements) (stage : ShaderStage) (block : Block) (declared : List String) :
    List String :=
  (addedMembers r stage block).1 ++ declared ++ (addedMembers r stage block).2

theorem declaresMember_of_mem_added {r : Requirements} {stage : ShaderStage} {block : Block}
    {line : String} (h : line ∈ (addedMembers r stage block).1 ∨
      line ∈ (addedMembers r stage block).2) : DeclaresMember line := by
  have hposition : DeclaresMember positionMember :=
    ⟨by decide, "Position", "float4", "SV_Position", by decide⟩
  have hinstance : DeclaresMember "uint InstanceId : SV_InstanceID;" :=
    ⟨by decide, "InstanceId", "uint", "SV_InstanceID", by decide⟩
  have hface : DeclaresMember "bool FrontFace : SV_IsFrontFace;" :=
    ⟨by decide, "FrontFace", "bool", "SV_IsFrontFace", by decide⟩
  cases stage <;> cases block <;> simp [addedMembers] at h
  · exact h.2 ▸ hinstance
  · exact h ▸ hposition
  · obtain rfl | ⟨-, rfl⟩ := h
    · exact hposition
    · exact hface

theorem memberLines_subset {r r' : Requirements} {stage : ShaderStage} {block : Block}
    {lines lines' : List String} (hface : r.frontFace → r'.frontFace)
    (hinstance : r.instanceId → r'.instanceId) (hlines : lines ⊆ lines') :
    memberLines r stage block lines ⊆ memberLines r' stage block lines' := by
  have hadded : (addedMembers r stage block).1 ⊆ (addedMembers r' stage block).1 ∧
      (addedMembers r stage block).2 ⊆ (addedMembers r' stage block).2 := by
    cases stage <;> cases block <;> simp [addedMembers]
    · cases h : r.instanceId <;> simp_all
    · cases h : r.frontFace <;> simp_all
  exact List.append_subset.mpr ⟨List.append_subset.mpr
    ⟨List.subset_append_of_subset_left _ (List.subset_append_of_subset_left _ hadded.1),
      List.subset_append_of_subset_left _ (List.subset_append_of_subset_right _ hlines)⟩,
    List.subset_append_of_subset_right _ hadded.2⟩

end Assembly

/-! ### Names -/

theorem isOtherWord_of_toList {s : String} {c : Char} {cs : List Char} (hword : IsWord s)
    (hs : s.toList = c :: cs) (hc : c ≠ 'i' ∧ c ≠ 'o') : IsOtherWord s := by
  refine ⟨hword, fun hmem ↦ ?_⟩
  obtain rfl | rfl : s = "i" ∨ s = "o" := by simpa [structVariables] using hmem
  · exact hc.1 (List.cons.inj hs).1.symm
  · exact hc.2 (List.cons.inj hs).1.symm

theorem isOtherWord_temporary (k : Nat) : IsOtherWord (temporary k) :=
  isOtherWord_of_toList (isWord_temporary k) (toList_temporary k) (by decide)

theorem isOtherWord_interpolatorName (slot : Nat) : IsOtherWord (interpolatorName slot) :=
  isOtherWord_of_toList (isWord_interpolatorName slot) (toList_interpolatorName slot) (by decide)

/-- Names that the compiler makes up are no struct variables. -/
theorem Backend.isOtherWord_reserved (b : Backend) {rest : String} (h : IsWord rest) :
    IsOtherWord (b.dialect.reservedPrefix ++ rest) := by
  have hword := isWord_append b.isWord_reservedPrefix h
  cases b <;>
    exact isOtherWord_of_toList (c := '_') hword (by rw [String.toList_append]; rfl) (by decide)

/-! ### Variables -/

/-- The variable selects declared members, and is a word if it is a texture. -/
structure Variable.IsClosed (M : Members) (v : Variable) : Prop where
  selects : Selects M v.name
  texture : v.type.isTexture → IsWord v.name

namespace Variable

variable {M N : Members} {v : Variable}

theorem IsClosed.mono (h : v.IsClosed M) (hsub : ∀ w member, M w member → N w member) :
    v.IsClosed N :=
  ⟨h.selects.mono hsub, h.texture⟩

theorem isClosed_of_isVector {text : String} {t : ValueType} (h : Selects M text)
    (ht : t.isVector) : (⟨text, t⟩ : Variable).IsClosed M :=
  ⟨h, fun htexture ↦ by cases t <;> cases ht <;> cases htexture⟩

theorem isClosed_of_isOtherWord {text : String} {t : ValueType} (h : IsOtherWord text) :
    (⟨text, t⟩ : Variable).IsClosed M :=
  ⟨.of_isOtherWord h, fun _ ↦ h.1⟩

end Variable

/-! ### Names of members -/

/-- The text is a single word. -/
structure IsOneWord (s : String) : Prop where
  isWord : IsWord s
  ne_empty : s ≠ ""

instance (s : String) : Decidable (IsOneWord s) :=
  decidable_of_iff (IsWord s ∧ s ≠ "") ⟨fun h ↦ ⟨h.1, h.2⟩, fun h ↦ ⟨h.1, h.2⟩⟩

theorem IsOneWord.tokens_eq {s : String} (h : IsOneWord s) : tokens s = [.word s] :=
  tokens_word h.isWord h.ne_empty

theorem isOneWord_numbered {base : String} (h : IsOneWord base) (k : Nat) :
    IsOneWord (base ++ toString k) :=
  ⟨isWord_append h.isWord (isPlainWord_toString k).1,
    fun hempty ↦ h.ne_empty (String.append_eq_empty_iff.mp hempty).1⟩

/-- A word that can be the name of a member. -/
structure IsMemberName (name : String) : Prop extends IsOneWord name where
  notMem : name ∉ structVariables

theorem IsMemberName.isOtherWord {name : String} (h : IsMemberName name) : IsOtherWord name :=
  ⟨h.isWord, h.notMem⟩

theorem isMemberName_interpolatorName (slot : Nat) : IsMemberName (interpolatorName slot) :=
  ⟨⟨isWord_interpolatorName slot, interpolatorName_ne_empty slot⟩,
    (isOtherWord_interpolatorName slot).2⟩

theorem isMemberName_numbered {base : String} {c : Char} {cs : List Char} (hbase : IsOneWord base)
    (hlist : base.toList = c :: cs) (hc : c ≠ 'i' ∧ c ≠ 'o') (index : Nat) :
    IsMemberName (base ++ toString index) := by
  have hword := isOneWord_numbered hbase index
  have hstart : (base ++ toString index).toList = c :: (cs ++ (toString index).toList) := by
    rw [String.toList_append, hlist]
    rfl
  exact ⟨hword, (isOtherWord_of_toList hword.isWord hstart hc).2⟩

/-- The reference to a member of a struct. -/
theorem selects_reference {M : Members} {w member : String} (hw : w ∈ structVariables)
    (hmember : IsMemberName member) (h : M w member) : Selects M (w ++ "." ++ member) := by
  have hword : tokens w = [.word w] ∧ IsBraceFree w.toList := by
    obtain rfl | rfl : w = "i" ∨ w = "o" := by simpa [structVariables] using hw
    · exact ⟨by decide, by decide⟩
    · exact ⟨by decide, by decide⟩
  have htokens : tokens (w ++ "." ++ member) = [.word w, .mark ".", .word member] := by
    rw [tokens_between (by decide) (by decide) (by decide), hword.1, hmember.tokens_eq]
    rfl
  refine ⟨?_, ?_⟩
  · rw [htokens]
    exact qualified_select h hmember.notMem
  · have hfree : IsBraceFree member.toList :=
      (Selects.of_isOtherWord (M := M) hmember.isOtherWord).isBraceFree
    rw [String.toList_append, String.toList_append]
    exact (hword.2.append (by decide)).append hfree

/-- The declaration of a member with a type and a semantic. -/
theorem isMemberLine_declaration {type member semantic : String} (htype : IsOneWord type)
    (hmember : IsOneWord member) (hsemantic : IsOneWord semantic) :
    IsLine s!"{type} {member} : {semantic};" ∧
      IsMemberLine member s!"{type} {member} : {semantic};" := by
  have hcolon : tokens " : " = [.mark ":"] := by decide
  constructor
  · exact .append (.append (.append (.append (.append htype.isWord.isLine (by decide))
      hmember.isWord.isLine) (by decide)) hsemantic.isWord.isLine) (by decide)
  · refine ⟨type, semantic, ?_⟩
    simp only [toString_text, tokens_semicolon]
    rw [tokens_between (by decide) (by decide) (by decide), hcolon, tokens_space, htype.tokens_eq,
      hmember.tokens_eq, hsemantic.tokens_eq]
    rfl

/-! ### Stages -/

namespace StageShader

/-- What is written in a stage and what is bound and declared in it selects declared members. -/
structure IsClosed (M : Members) (s : StageShader) : Prop where
  bodies : ∀ b ∈ s.buffers, EndsApart b.text ∧ Qualified M (tokens b.text)
  bindings : ∀ b ∈ s.bindings, b.2.IsClosed M
  outer : ∀ b ∈ s.outer, b.2.IsClosed M
  attributes : ∀ a ∈ s.attributes, a.2.IsClosed M
  targets : ∀ member, s.isDeclared s!"o.{member}" → M "o" member

/-- Nothing that declares members differs. -/
structure SameMembers (s t : StageShader) : Prop where
  inputs : t.inputs = s.inputs
  outputs : t.outputs = s.outputs
  stage : t.stage = s.stage

/-- A change of a stage that declares no members and keeps the stage closed. -/
structure KeepsClosed (M : Members) (f : StageShader → StageShader) : Prop where
  members : ∀ s : StageShader, s.SameMembers (f s)
  closed : ∀ s : StageShader, s.IsClosed M → (f s).IsClosed M

variable {M N : Members} {s : StageShader} {pin : PinId} {v : Variable} {type : ValueType}

theorem SameMembers.refl (s : StageShader) : s.SameMembers s :=
  ⟨rfl, rfl, rfl⟩

theorem SameMembers.trans {s t u : StageShader} (h : s.SameMembers t) (h' : t.SameMembers u) :
    s.SameMembers u :=
  ⟨h'.inputs.trans h.inputs, h'.outputs.trans h.outputs, h'.stage.trans h.stage⟩

theorem IsClosed.mono (h : s.IsClosed M) (hsub : ∀ w member, M w member → N w member) :
    s.IsClosed N where
  bodies b hb := ⟨(h.bodies b hb).1, (h.bodies b hb).2.mono hsub⟩
  bindings b hb := (h.bindings b hb).mono hsub
  outer b hb := (h.outer b hb).mono hsub
  attributes a ha := (h.attributes a ha).mono hsub
  targets member hmember := hsub _ _ (h.targets member hmember)

theorem IsClosed.binding (hs : s.IsClosed M) (h : s.binding? pin = some v) : v.IsClosed M := by
  rw [StageShader.binding?, Option.or_eq_some_iff] at h
  obtain h | ⟨-, h⟩ := h
  · obtain ⟨b, hb, rfl⟩ := mem_of_lookup h
    exact hs.bindings b hb
  · obtain ⟨b, hb, rfl⟩ := mem_of_lookup h
    exact hs.outer b hb

/-- What a stage is closed with does not depend on its blocks, scopes and scripts. -/
theorem IsClosed.of_eq {t : StageShader} (hs : s.IsClosed M) (hbuffers : t.buffers = s.buffers)
    (hbindings : t.bindings = s.bindings) (houter : t.outer = s.outer)
    (hattributes : t.attributes = s.attributes) (hdeclared : t.declared = s.declared) :
    t.IsClosed M where
  bodies := by rw [hbuffers]; exact hs.bodies
  bindings := by rw [hbindings]; exact hs.bindings
  outer := by rw [houter]; exact hs.outer
  attributes := by rw [hattributes]; exact hs.attributes
  targets member hmember := hs.targets member (by rwa [isDeclared, hdeclared] at hmember)

theorem isClosed_retypeFirst {bindings : List Binding} (h : ∀ b ∈ bindings, b.2.IsClosed M)
    (htype : type.isTexture = false) : ∀ b ∈ retypeFirst pin type bindings, b.2.IsClosed M := by
  induction bindings with
  | nil => simp [retypeFirst]
  | cons b bs ih =>
    have hb := h b List.mem_cons_self
    have hbs := fun c hc ↦ h c (List.mem_cons_of_mem b hc)
    unfold retypeFirst
    split
    · rintro c hc
      rcases List.mem_cons.mp hc with rfl | hc
      · exact ⟨hb.selects, fun htexture ↦ by simp [htype] at htexture⟩
      · exact hbs c hc
    · rintro c hc
      rcases List.mem_cons.mp hc with rfl | hc
      · exact hb
      · exact ih hbs c hc

namespace KeepsClosed

variable {f g : StageShader → StageShader}

theorem comp (hg : KeepsClosed M g) (hf : KeepsClosed M f) : KeepsClosed M fun s ↦ g (f s) where
  members s := (hf.members s).trans (hg.members (f s))
  closed s hs := hg.closed _ (hf.closed s hs)

theorem bind (hv : v.IsClosed M) : KeepsClosed M fun s ↦ s.bind pin v where
  members _ := ⟨rfl, rfl, rfl⟩
  closed _ hs :=
    { hs with bindings := by simpa [StageShader.bind] using ⟨hv, fun _ _ ↦ hs.bindings _⟩ }

theorem bindOuter (pin : PinId) (hv : v.IsClosed M) : KeepsClosed M fun s ↦ s.bindOuter pin v where
  members _ := ⟨rfl, rfl, rfl⟩
  closed _ hs :=
    { hs with
      outer := fun b hb ↦ by
        rcases List.mem_append.mp hb with hb | hb
        · exact hs.outer b hb
        · obtain rfl := List.mem_singleton.mp hb
          exact hv }

theorem retype (htype : type.isTexture = false) : KeepsClosed M fun s ↦ s.retype pin type where
  members _ := ⟨rfl, rfl, rfl⟩
  closed _ hs := { hs with bindings := isClosed_retypeFirst hs.bindings htype }

/-- Writing qualified tokens to the active body. -/
theorem modifyBody {f : CodeBuffer → CodeBuffer} {ts : List Token}
    (hf : ∀ b : CodeBuffer, EndsApart b.text → b.Grows (f b) ts) (hts : Qualified M ts) :
    KeepsClosed M fun s ↦ s.modifyBody f where
  members s := by
    unfold StageShader.modifyBody
    split <;> exact ⟨rfl, rfl, rfl⟩
  closed s hs := by
    obtain ⟨b, rest, hbuffers⟩ := List.exists_cons_of_ne_nil s.buffers_ne_nil
    have hbodies : ∀ c ∈ (s.modifyBody f).buffers,
        EndsApart c.text ∧ Qualified M (tokens c.text) := by
      intro c hc
      rw [buffers_modifyBody hbuffers] at hc
      rcases List.mem_cons.mp hc with rfl | hc
      · obtain ⟨hends, hqualified⟩ := hs.bodies b (by simp [hbuffers])
        refine ⟨(hf b hends).endsApart, ?_⟩
        rw [(hf b hends).tokens]
        exact hqualified.append hts
      · exact hs.bodies c (by simp [hbuffers, hc])
    unfold StageShader.modifyBody at hbodies ⊢
    cases hcaptures : s.captures <;>
      exact ⟨by simpa [hcaptures] using hbodies, hs.bindings, hs.outer, hs.attributes, hs.targets⟩

theorem beginCapture : KeepsClosed M fun s ↦ s.beginCapture.openScope where
  members _ := ⟨rfl, rfl, rfl⟩
  closed s hs :=
    { hs with
      bodies := fun b hb ↦ by
        rcases List.mem_cons.mp hb with rfl | hb
        · exact ⟨by decide, trivial⟩
        · exact hs.bodies b hb }

theorem closeScope : KeepsClosed M StageShader.closeScope where
  members s := by
    unfold StageShader.closeScope
    split <;> exact ⟨rfl, rfl, rfl⟩
  closed s hs := by
    unfold StageShader.closeScope
    split
    · exact hs
    · exact { hs with bindings := fun b hb ↦ hs.bindings b (List.mem_of_mem_drop hb) }

theorem endCapture : KeepsClosed M fun s ↦ s.closeScope.endCapture.2 := by
  refine KeepsClosed.comp (g := fun s ↦ s.endCapture.2) ⟨fun s ↦ ?_, fun s hs ↦ ?_⟩ closeScope
  · unfold StageShader.endCapture
    split <;> exact ⟨rfl, rfl, rfl⟩
  · unfold StageShader.endCapture
    split
    · exact hs
    · next b bs hcaptures =>
      exact { hs with bodies := fun c hc ↦ hs.bodies c (by
        simp only [buffers, hcaptures, List.cons_append] at hc ⊢
        exact List.mem_cons_of_mem b hc) }

theorem modifyBlock (block : Block) (hblock : block ≠ .inputs ∧ block ≠ .outputs)
    (f : CodeBuffer → CodeBuffer) : KeepsClosed M fun s ↦ s.modifyBlock block f where
  members s := by
    cases block
    · exact ⟨rfl, rfl, rfl⟩
    · exact ⟨rfl, rfl, rfl⟩
    · exact absurd rfl hblock.1
    · exact absurd rfl hblock.2
    · exact ⟨rfl, rfl, rfl⟩
  closed s hs := by cases block <;> exact hs.of_eq rfl rfl rfl rfl rfl

theorem addAttribute (name : String) (hv : v.IsClosed M) :
    KeepsClosed M fun s ↦ s.addAttribute name v where
  members _ := ⟨rfl, rfl, rfl⟩
  closed _ hs :=
    { hs with
      attributes := by simpa [StageShader.addAttribute] using ⟨hv, fun _ _ ↦ hs.attributes _⟩ }

theorem defineScript (name signature : String) :
    KeepsClosed M fun s ↦ s.defineScript name signature :=
  ⟨fun _ ↦ ⟨rfl, rfl, rfl⟩, fun _ hs ↦ hs.of_eq rfl rfl rfl rfl rfl⟩

/-- Declaring a name. A member that is declared so is a member of its struct. -/
theorem declare {name : String} (hname : ∀ member, name = s!"o.{member}" → M "o" member) :
    KeepsClosed M fun s ↦ s.declare name where
  members s := by
    unfold StageShader.declare
    split <;> exact ⟨rfl, rfl, rfl⟩
  closed s hs := by
    have htargets : ∀ member, (s.declare name).isDeclared s!"o.{member}" → M "o" member := by
      intro member hmember
      obtain hnew | hold := s.isDeclared_declare.mp hmember
      · exact hname member hnew.symm
      · exact hs.targets member hold
    have hsame := SameCode.declare s name
    exact { bodies := hsame.buffers ▸ hs.bodies, bindings := hsame.bindings ▸ hs.bindings,
            outer := hsame.outer ▸ hs.outer, attributes := hsame.attributes ▸ hs.attributes,
            targets := htargets }

end KeepsClosed

/-- The text of a capture selects declared members. -/
theorem IsClosed.captured (hs : s.IsClosed M) : Qualified M (tokens s.closeScope.endCapture.1) := by
  have hclose := KeepsClosed.closeScope.closed s hs
  unfold StageShader.endCapture
  split
  · exact trivial
  · next b bs hcaptures => exact (hclose.bodies b (by simp [buffers, hcaptures])).2

end StageShader

end ShaderGraph
