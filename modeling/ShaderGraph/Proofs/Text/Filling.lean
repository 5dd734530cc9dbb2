import ShaderGraph.Proofs.Emission.Steps
import ShaderGraph.Proofs.Text.Syntax

/-!
# Filled templates

A template is read as pieces of fixed text and holes. Values without braces fill each hole on its
own, in whatever order the names are replaced, and a template in which fixed syntax stands between
any two holes becomes a phrase over the values.
-/

namespace ShaderGraph

/-- The text holds no brace. -/
def IsBraceFree (cs : List Char) : Prop :=
  '\x7b' ∉ cs ∧ '\x7d' ∉ cs

instance (cs : List Char) : Decidable (IsBraceFree cs) :=
  inferInstanceAs (Decidable (_ ∧ _))

/-! ## Replacement -/

section Replacement

variable {name other replacement cs rest : List Char}

theorem replaceFrom_skip (pattern : List Char) :
    replaceFrom pattern replacement cs.length (cs ++ rest) =
      replaceFrom pattern replacement 0 rest := by
  induction cs with
  | nil => rfl
  | cons c cs ih => exact ih

theorem replaceFrom_of_braceFree {pattern : List Char} (h : '\x7b' ∉ cs) :
    replaceFrom ('\x7b' :: pattern) replacement 0 (cs ++ rest) =
      cs ++ replaceFrom ('\x7b' :: pattern) replacement 0 rest := by
  induction cs with
  | nil => rfl
  | cons c cs ih =>
    simp only [List.mem_cons, not_or] at h
    have hprefix : ('\x7b' :: pattern).isPrefixOf (c :: (cs ++ rest)) = false := by
      simp [List.isPrefixOf, h.1]
    rw [List.cons_append, replaceFrom, hprefix]
    simp [ih h.2]

theorem replaceFrom_placeholder :
    replaceFrom ('\x7b' :: (name ++ ['\x7d'])) replacement 0 ('\x7b' :: (name ++ '\x7d' :: rest)) =
      replacement ++ replaceFrom ('\x7b' :: (name ++ ['\x7d'])) replacement 0 rest := by
  have hsplit : name ++ '\x7d' :: rest = (name ++ ['\x7d']) ++ rest := by simp
  have hprefix : ('\x7b' :: (name ++ ['\x7d'])).isPrefixOf ('\x7b' :: (name ++ '\x7d' :: rest)) := by
    rw [List.isPrefixOf_iff_prefix, hsplit]
    exact ⟨rest, rfl⟩
  rw [replaceFrom, if_pos hprefix, hsplit]
  congr 1
  exact replaceFrom_skip _

/-- Names without braces are told apart by the brace that ends them. -/
theorem eq_of_append_brace {as bs xs ys : List Char} (ha : '\x7d' ∉ as) (hb : '\x7d' ∉ bs)
    (h : as ++ '\x7d' :: xs = bs ++ '\x7d' :: ys) : as = bs := by
  induction as generalizing bs with
  | nil =>
    cases bs with
    | nil => rfl
    | cons b bs =>
      simp only [List.nil_append, List.cons_append, List.cons.injEq] at h
      exact absurd (h.1 ▸ List.mem_cons_self) hb
  | cons a as ih =>
    cases bs with
    | nil =>
      simp only [List.nil_append, List.cons_append, List.cons.injEq] at h
      exact absurd (h.1 ▸ List.mem_cons_self) ha
    | cons b bs =>
      simp only [List.cons_append, List.cons.injEq] at h
      rw [h.1, ih (fun hm ↦ ha (List.mem_cons_of_mem a hm))
        (fun hm ↦ hb (List.mem_cons_of_mem b hm)) h.2]

theorem replaceFrom_other (hname : '\x7d' ∉ name) (hother : IsBraceFree other) (hne : other ≠ name) :
    replaceFrom ('\x7b' :: (name ++ ['\x7d'])) replacement 0 ('\x7b' :: (other ++ '\x7d' :: rest)) =
      '\x7b' :: (other ++ '\x7d' ::
        replaceFrom ('\x7b' :: (name ++ ['\x7d'])) replacement 0 rest) := by
  have hprefix : ('\x7b' :: (name ++ ['\x7d'])).isPrefixOf
      ('\x7b' :: (other ++ '\x7d' :: rest)) = false := by
    rw [Bool.eq_false_iff, Ne, List.isPrefixOf_iff_prefix]
    rintro ⟨tail, htail⟩
    simp only [List.cons_append, List.append_assoc, List.cons.injEq, true_and, List.nil_append]
      at htail
    exact hne (eq_of_append_brace hname hother.2 htail).symm
  have hbrace : other ++ '\x7d' :: rest = (other ++ ['\x7d']) ++ rest := by simp
  have hfree : '\x7b' ∉ other ++ ['\x7d'] := by simpa using hother.1
  rw [replaceFrom, hprefix, hbrace, if_neg (by simp), replaceFrom_of_braceFree hfree]
  simp

end Replacement

/-! ## Templates as pieces -/

namespace Template

/-- A piece of a template. -/
inductive Piece
  | text (s : String)
  | hole (name : String)
deriving DecidableEq

namespace Piece

def chars : Piece → List Char
  | text s => s.toList
  | hole name => (placeholder name).toList

def isBraceFree : Piece → Prop
  | text s => IsBraceFree s.toList
  | hole name => IsBraceFree name.toList

instance : (p : Piece) → Decidable p.isBraceFree
  | text s => inferInstanceAs (Decidable (IsBraceFree s.toList))
  | hole name => inferInstanceAs (Decidable (IsBraceFree name.toList))

/-- Fills the hole of a name. -/
def subst (name value : String) : Piece → Piece
  | text s => text s
  | hole other => if other = name then text value else hole other

def fill (args : List (String × String)) (p : Piece) : Piece :=
  args.foldl (fun p a ↦ p.subst a.1 a.2) p

theorem fill_text (args : List (String × String)) (s : String) : (text s).fill args = text s := by
  induction args with
  | nil => rfl
  | cons a args ih => exact ih

theorem fill_hole {args : List (String × String)} {name : String}
    (h : name ∈ args.map Prod.fst) : ∃ a ∈ args, (hole name).fill args = text a.2 := by
  induction args with
  | nil => cases h
  | cons a args ih =>
    by_cases hname : name = a.1
    · exact ⟨a, List.mem_cons_self, by simpa [fill, subst, hname] using fill_text args a.2⟩
    · have hrest : name ∈ args.map Prod.fst := (List.mem_cons.mp h).resolve_left hname
      obtain ⟨b, hb, hfill⟩ := ih hrest
      exact ⟨b, List.mem_cons_of_mem a hb, by simpa [fill, subst, hname] using hfill⟩

theorem isBraceFree_subst {name value : String} {p : Piece} (hp : p.isBraceFree)
    (hvalue : IsBraceFree value.toList) : (p.subst name value).isBraceFree := by
  cases p with
  | text s => exact hp
  | hole other =>
    by_cases hother : other = name
    · rw [subst, if_pos hother]
      exact hvalue
    · rw [subst, if_neg hother]
      exact hp

end Piece

def render (pieces : List Piece) : List Char :=
  pieces.flatMap Piece.chars

theorem toList_placeholder (name : String) :
    (placeholder name).toList = '\x7b' :: (name.toList ++ ['\x7d']) := by
  simp [placeholder]

theorem replaceText_render {pieces : List Piece} {name value : String}
    (hpieces : ∀ p ∈ pieces, p.isBraceFree) (hname : IsBraceFree name.toList) :
    replaceText (String.ofList (render pieces)) (placeholder name) value =
      String.ofList (render (pieces.map (Piece.subst name value))) := by
  unfold replaceText
  rw [String.toList_ofList, toList_placeholder]
  congr 1
  induction pieces with
  | nil => rfl
  | cons p pieces ih =>
    have ih := ih fun q hq ↦ hpieces q (List.mem_cons_of_mem p hq)
    have hp := hpieces p List.mem_cons_self
    simp only [render, List.flatMap_cons, List.map_cons] at ih ⊢
    cases p with
    | text s =>
      rw [Piece.chars, replaceFrom_of_braceFree hp.1, ih]
      rfl
    | hole other =>
      simp only [Piece.chars, toList_placeholder, List.cons_append, List.append_assoc,
        List.nil_append]
      by_cases hother : other = name
      · rw [hother, replaceFrom_placeholder, ih]
        simp [Piece.subst]
      · have hne : other.toList ≠ name.toList := fun h ↦ hother (String.toList_injective h)
        rw [replaceFrom_other hname.2 hp hne, ih]
        simp [Piece.subst, hother]

/-- Filling a template fills each of its pieces. -/
theorem fill_render {pieces : List Piece} {args : List (String × String)}
    (hpieces : ∀ p ∈ pieces, p.isBraceFree)
    (hargs : ∀ a ∈ args, IsBraceFree a.1.toList ∧ IsBraceFree a.2.toList) :
    Template.fill (String.ofList (render pieces)) args =
      String.ofList (render (pieces.map (Piece.fill args))) := by
  induction args generalizing pieces with
  | nil =>
    have hid : Piece.fill [] = id := rfl
    rw [hid, List.map_id]
    rfl
  | cons a args ih =>
    obtain ⟨hname, hvalue⟩ := hargs a List.mem_cons_self
    have hsubst : ∀ p ∈ pieces.map (Piece.subst a.1 a.2), p.isBraceFree := by
      intro p hp
      obtain ⟨q, hq, rfl⟩ := List.mem_map.mp hp
      exact Piece.isBraceFree_subst (hpieces q hq) hvalue
    have hstep := ih hsubst fun b hb ↦ hargs b (List.mem_cons_of_mem a hb)
    rw [Template.fill, List.foldl_cons, replaceText_render hpieces hname]
    rw [Template.fill] at hstep
    rw [hstep, List.map_map]
    rfl

/-- A template in which syntax stands between any two holes. -/
structure Pattern where
  start : String
  first : String
  rest : List (String × String)
  stop : String

namespace Pattern

def pieces (p : Pattern) : List Piece :=
  .text p.start :: .hole p.first ::
    (p.rest.flatMap (fun q ↦ [Piece.text q.1, Piece.hole q.2]) ++ [Piece.text p.stop])

def holes (p : Pattern) : List String :=
  p.first :: p.rest.map Prod.snd

/-- The fixed syntax of the pattern. -/
structure IsSyntax (p : Pattern) : Prop where
  start : p.start = "" ∨ Opening p.start
  rest : ∀ q ∈ p.rest, Closing q.1 ∧ Opening q.1
  stop : p.stop = "" ∨ Closing p.stop
  braceFree : ∀ q ∈ p.pieces, q.isBraceFree

instance (p : Pattern) : Decidable p.IsSyntax :=
  decidable_of_iff ((p.start = "" ∨ Opening p.start) ∧ (∀ q ∈ p.rest, Closing q.1 ∧ Opening q.1) ∧
    (p.stop = "" ∨ Closing p.stop) ∧ ∀ q ∈ p.pieces, q.isBraceFree)
    ⟨fun h ↦ ⟨h.1, h.2.1, h.2.2.1, h.2.2.2⟩, fun h ↦ ⟨h.1, h.2, h.3, h.4⟩⟩

theorem ofList_render (p : Pattern) :
    String.ofList (render p.pieces) = p.start ++ (placeholder p.first ++
      (String.join (p.rest.map fun q ↦ q.1 ++ placeholder q.2) ++ p.stop)) := by
  have hrest : String.ofList (render (p.rest.flatMap fun q ↦ [Piece.text q.1, Piece.hole q.2])) =
      String.join (p.rest.map fun q ↦ q.1 ++ placeholder q.2) := by
    induction p.rest with
    | nil => rfl
    | cons q rest ih =>
      simp only [render] at ih ⊢
      simp [Piece.chars, String.ofList_append, ih, String.append_assoc]
  simp only [render] at hrest
  simp [pieces, render, Piece.chars, String.ofList_append, hrest]

variable {atom : String → Prop} {args : List (String × String)}

theorem phrase_rest {acc : String} {rest : List (String × String)} (hacc : Phrase atom acc)
    (hrest : ∀ q ∈ rest, Closing q.1 ∧ Opening q.1) (hholes : ∀ q ∈ rest, q.2 ∈ args.map Prod.fst)
    (hargs : ∀ a ∈ args, Phrase atom a.2) :
    Phrase atom (acc ++ String.ofList (render
      ((rest.flatMap fun q ↦ [.text q.1, .hole q.2]).map (Piece.fill args)))) := by
  induction rest generalizing acc with
  | nil => simpa [render] using hacc
  | cons q rest ih =>
    obtain ⟨a, ha, hfill⟩ := Piece.fill_hole (hholes q List.mem_cons_self)
    have hnext := ih (.between hacc (hrest q List.mem_cons_self) (hargs a ha))
      (fun r hr ↦ hrest r (List.mem_cons_of_mem q hr))
      (fun r hr ↦ hholes r (List.mem_cons_of_mem q hr))
    simpa [render, Piece.fill_text, hfill, Piece.chars, String.ofList_append,
      String.append_assoc] using hnext

/-- A filled pattern is a phrase over the values. -/
theorem phrase_fill {p : Pattern} (hp : p.IsSyntax) (hholes : ∀ h ∈ p.holes, h ∈ args.map Prod.fst)
    (hbraces : ∀ a ∈ args, IsBraceFree a.1.toList ∧ IsBraceFree a.2.toList)
    (hargs : ∀ a ∈ args, Phrase atom a.2) :
    Phrase atom (Template.fill (String.ofList (render p.pieces)) args) := by
  rw [fill_render hp.braceFree hbraces]
  obtain ⟨a, ha, hfill⟩ := Piece.fill_hole (hholes p.first List.mem_cons_self)
  have hfirst : Phrase atom (p.start ++ a.2) := by
    obtain hstart | hstart := hp.start
    · simpa [hstart] using hargs a ha
    · exact .after hstart (hargs a ha)
  have hrest := phrase_rest hfirst hp.rest
    (fun q hq ↦ hholes q.2 (List.mem_cons_of_mem _ (List.mem_map_of_mem hq))) hargs
  have hall := show Phrase atom (_ ++ p.stop) by
    obtain hstop | hstop := hp.stop
    · simpa [hstop] using hrest
    · exact .before hrest hstop
  simpa [pieces, render, Piece.fill_text, hfill, Piece.chars, String.ofList_append,
    String.append_assoc] using hall

end Pattern

def products : List Pattern :=
  [⟨"", "matrix", [(" * ", "vector")], ""⟩, ⟨"", "left", [(" * ", "right")], ""⟩,
    ⟨"mul(", "vector", [(", ", "matrix")], ")"⟩, ⟨"mul(", "left", [(", ", "right")], ")"⟩]

/-- Calls that sample by a function of GLSL. -/
def calls (function : String) : List Pattern :=
  [⟨function ++ "(", "sampler", [(", ", "coord")], ")"⟩,
    ⟨function ++ "(", "sampler", [(", ", "coord"), (", ", "bias")], ")"⟩,
    ⟨function ++ "Lod(", "sampler", [(", ", "coord")], ", 0.0)"⟩]

/-- Calls of the methods of HLSL textures. -/
def methods : List Pattern :=
  [⟨"", "texture", [(".Sample(", "sampler"), (", ", "coord")], ")"⟩,
    ⟨"", "texture", [(".SampleBias(", "sampler"), (", ", "coord"), (", ", "bias")], ")"⟩,
    ⟨"", "texture", [(".SampleLevel(", "sampler"), (", ", "coord")], ", 0.0)"⟩]

def samplePatterns : Backend → ValueType → List Pattern
  | .glsl, _ => calls "texture"
  | .glslEs, .texture2D => calls "texture2D"
  | .glslEs, _ => calls "textureCube"
  | .hlsl, _ => methods

/-- Comparisons with a depth, by the type of the coordinate. Methods are given its last component as an
argument of its own. -/
def comparePatterns : Backend → ValueType → List Pattern
  | .hlsl, .vec3 =>
    [⟨"", "texture", [(".SampleCmpLevelZero(", "sampler"), (", ", "coord"), (".xy, ", "coord")],
      ".z)"⟩]
  | .hlsl, .vec4 =>
    [⟨"", "texture", [(".SampleCmpLevelZero(", "sampler"), (", ", "coord"), (".xyz, ", "coord")],
      ".w)"⟩]
  | .hlsl, _ => []
  | _, _ => calls "texture"

section Sampling

variable {b : Backend} {t : ValueType} {templates : SampleTemplates}

theorem exists_samplePattern (h : b.dialect.sampleTemplates? t = some templates) :
    ∀ template ∈ templates.sample :: (templates.sampleBias?.toList ++ templates.sampleLod?.toList),
      ∃ p ∈ samplePatterns b t, template = String.ofList (render p.pieces) := by
  cases b <;> cases t <;> cases h <;>
    simp [samplePatterns, calls, methods, Pattern.ofList_render, Dialect.glslTemplates,
      Dialect.glslEsTemplates, Dialect.hlslTemplates, texture, sampler, coord, bias,
      String.append_assoc]

theorem exists_comparePattern (h : b.dialect.sampleTemplates? t = some templates) :
    ∀ c ∈ templates.sampleCompare?,
      ∃ p ∈ comparePatterns b c.coordinate, c.template = String.ofList (render p.pieces) := by
  cases b <;> cases t <;> cases h <;>
    simp [comparePatterns, calls, Pattern.ofList_render, Dialect.glslTemplates,
      Dialect.glslEsTemplates, Dialect.hlslTemplates, texture, sampler, coord, String.append_assoc]

end Sampling

theorem isSyntax_products : ∀ p ∈ products, p.IsSyntax := by
  decide +kernel

/-- The pattern is filled with what a sampling is about. -/
def Pattern.Samples (p : Pattern) : Prop :=
  p.IsSyntax ∧ ∀ name ∈ p.holes, name ∈ ["texture", "sampler", "coord", "bias"]

instance (p : Pattern) : Decidable p.Samples :=
  inferInstanceAs (Decidable (_ ∧ _))

theorem samples_calls :
    ∀ function ∈ ["texture", "texture2D", "textureCube"], ∀ p ∈ calls function, p.Samples := by
  decide +kernel

theorem samples_methods :
    ∀ p ∈ methods ++ comparePatterns .hlsl .vec3 ++ comparePatterns .hlsl .vec4, p.Samples := by
  decide +kernel

theorem samples_samplePatterns (b : Backend) (t : ValueType) :
    ∀ p ∈ samplePatterns b t, p.Samples := by
  unfold samplePatterns
  split
  · exact samples_calls _ (by simp)
  · exact samples_calls _ (by simp)
  · exact samples_calls _ (by simp)
  · exact fun p hp ↦ samples_methods p (by simp [hp])

theorem samples_comparePatterns (b : Backend) (t : ValueType) :
    ∀ p ∈ comparePatterns b t, p.Samples := by
  unfold comparePatterns
  split
  · exact fun p hp ↦ samples_methods p (List.mem_append_left _ (List.mem_append_right _ hp))
  · exact fun p hp ↦ samples_methods p (List.mem_append_right _ hp)
  · simp
  · exact samples_calls _ (by simp)

end Template

open Template

theorem isBraceFree_key {d : Dialect} {template : String} {keys : List String}
    (h : d.IsTemplate template keys) : ∀ key ∈ keys, IsBraceFree key.toList := by
  cases h <;> decide

/-- The templates of the dialects are patterns over their keys. -/
theorem Backend.exists_pattern {b : Backend} {template : String} {keys : List String}
    (h : b.dialect.IsTemplate template keys) :
    ∃ p : Pattern, p.IsSyntax ∧ template = String.ofList (render p.pieces) ∧
      ∀ name ∈ p.holes, name ∈ keys := by
  cases h with
  | transform =>
    have hproduct : ∃ p ∈ products, b.dialect.transform = String.ofList (render p.pieces) ∧
        ∀ name ∈ p.holes, name ∈ ["matrix", "vector"] := by
      cases b <;> decide +kernel
    obtain ⟨p, hp, htext, hholes⟩ := hproduct
    exact ⟨p, isSyntax_products p hp, htext, hholes⟩
  | matrixMultiply =>
    have hproduct : ∃ p ∈ products, b.dialect.matrixMultiply = String.ofList (render p.pieces) ∧
        ∀ name ∈ p.holes, name ∈ ["left", "right"] := by
      cases b <;> decide +kernel
    obtain ⟨p, hp, htext, hholes⟩ := hproduct
    exact ⟨p, isSyntax_products p hp, htext, hholes⟩
  | @sample t templates _ h htemplate =>
    obtain hsample | ⟨c, hc, rfl⟩ : template ∈ templates.sample :: (templates.sampleBias?.toList ++
        templates.sampleLod?.toList) ∨ ∃ c ∈ templates.sampleCompare?, c.template = template := by
      obtain rfl | hbias | hlod | hcompare := htemplate
      · exact .inl List.mem_cons_self
      · exact .inl (by simp [hbias])
      · exact .inl (by simp [hlod])
      · exact .inr (Option.map_eq_some_iff.mp hcompare)
    · obtain ⟨p, hp, htext⟩ := exists_samplePattern h template hsample
      obtain ⟨hform, hholes⟩ := samples_samplePatterns b t p hp
      exact ⟨p, hform, htext, hholes⟩
    · obtain ⟨p, hp, htext⟩ := exists_comparePattern h c hc
      obtain ⟨hform, hholes⟩ := samples_comparePatterns b c.coordinate p hp
      exact ⟨p, hform, htext, hholes⟩

/-- What a template computes is a phrase over what is at hand, like the values that fill it. -/
theorem Held.Computes.phrase {H : Held} {b : Backend} {expr : String}
    (h : H.Computes b.dialect expr) (hbraces : ∀ text, H.Forms text → IsBraceFree text.toList) :
    Phrase (· ∈ H.texts) expr := by
  obtain hform | ⟨template, args, htemplate, hargs, -, rfl⟩ := h
  · exact hform.phrase
  · obtain ⟨p, hp, rfl, hholes⟩ := b.exists_pattern htemplate
    have hfill : ∀ a ∈ args, IsBraceFree a.1.toList ∧ IsBraceFree a.2.toList := fun a ha ↦
      ⟨isBraceFree_key htemplate a.1 (List.mem_map_of_mem ha), hbraces a.2 (hargs a ha)⟩
    exact Template.Pattern.phrase_fill hp hholes hfill fun a ha ↦ (hargs a ha).phrase

end ShaderGraph
