import ShaderGraph.Proofs.Definitions.Stages
import ShaderGraph.Proofs.Graph.Wiring
import ShaderGraph.Proofs.Members.States
import ShaderGraph.Proofs.Scope.Steps

/-!
# Vertex attributes of compiled programs

The vertex stage declares an attribute under the first node that reads it, once for every name that
vertex inputs give to attributes. What is declared is called by usage and index, though. So an
identifier is declared once if vertex inputs that agree in usage and index agree in the name, and twice
if two of them that are read have names of their own.
-/

namespace ShaderGraph

open EmitM Emitter

/-- Vertex inputs that agree in usage and index agree in the name. -/
def Graph.SharesAttributes (g : Graph) : Prop :=
  ∀ n ∈ g.nodes.values, ∀ m ∈ g.nodes.values, ∀ a b : VertexAttribute,
    n.attribute? = some a → m.attribute? = some b → a.usage = b.usage → a.index = b.index → a.name = b.name

namespace VertexAttribute

/-- A usage that is followed by digits is told apart from all others. -/
theorem label_digits_inj {usage usage' : AttributeUsage} {j k : Nat}
    (h : (Labelled.label usage).toList ++ Nat.toDigits 10 j =
      (Labelled.label usage').toList ++ Nat.toDigits 10 k) : usage = usage' ∧ j = k := by
  have husage : usage = usage' := by
    cases usage <;> cases usage' <;> first | rfl | simp [Labelled.label] at h
  subst husage
  refine ⟨rfl, ?_⟩
  rw [← Nat.ofDigitChars_ten_toDigits (n := j), List.append_cancel_left h,
    Nat.ofDigitChars_ten_toDigits]

theorem exists_toList_identifier (d : Dialect) : ∃ before : List Char, ∀ a : VertexAttribute,
    (a.identifier d).toList =
      before ++ ((Labelled.label a.usage).toList ++ Nat.toDigits 10 a.index.toNat) := by
  have hdigits (index : UInt32) : (toString index).toList = Nat.toDigits 10 index.toNat := by
    rw [← Nat.toList_repr]
    rfl
  cases hlayout : d.layout with
  | structs =>
    refine ⟨[], fun a ↦ ?_⟩
    simp [identifier, Dialect.vertexAttribute, hlayout, hdigits]
  | globals =>
    refine ⟨"in_".toList, fun a ↦ ?_⟩
    simp [identifier, Dialect.vertexAttribute, hlayout, hdigits]

/-- Attributes have one identifier if and only if they agree in usage and index. -/
theorem identifier_inj {d : Dialect} {a b : VertexAttribute} :
    a.identifier d = b.identifier d ↔ a.usage = b.usage ∧ a.index = b.index := by
  constructor
  · intro h
    obtain ⟨before, hidentifier⟩ := exists_toList_identifier d
    have hlists := congrArg String.toList h
    rw [hidentifier, hidentifier] at hlists
    obtain ⟨husage, hindex⟩ := label_digits_inj (List.append_cancel_left hlists)
    exact ⟨husage, UInt32.toNat_inj.mp hindex⟩
  · rintro ⟨husage, hindex⟩
    rw [identifier, identifier, husage, hindex]

theorem isLine_declaration (b : Backend) (a : VertexAttribute) : IsLine (a.declaration b.dialect) := by
  have hname := (isPlainWord_vertexAttribute b a.usage a.index).1.isLine
  have htype : IsLine (b.dialect.typeNameOrVoid a.type) := by
    cases b <;> cases a.type <;> decide
  cases b with
  | hlsl => exact (Dialect.isMemberLine_attribute a.type a.usage a.index).1
  | glsl =>
    exact .append (.append (.append (.append (by decide) htype) (by decide)) hname) (by decide)
  | glslEs =>
    exact .append (.append (.append (.append (by decide) htype) (by decide)) hname) (by decide)

/-- Attributes of distinct names have distinct identifiers if their vertex inputs share what agrees in
usage and index. -/
theorem nodup_identifiers {g : Graph} (hg : g.SharesAttributes) (d : Dialect)
    {attributes : List VertexAttribute} (hnames : (attributes.map name).Nodup)
    (hinputs : ∀ a ∈ attributes, ∃ n ∈ g.nodes.values, n.attribute? = some a) :
    (attributes.map (identifier d)).Nodup := by
  rw [List.nodup_iff_pairwise_ne, List.pairwise_map] at hnames ⊢
  refine hnames.imp_of_mem fun {a b} ha hb hne heq ↦ hne ?_
  obtain ⟨n, hn, hna⟩ := hinputs a ha
  obtain ⟨m, hm, hmb⟩ := hinputs b hb
  obtain ⟨husage, hindex⟩ := identifier_inj.mp heq
  exact hg n hn m hm a b hna hmb husage hindex

end VertexAttribute

/-- A compiled program declares attributes of distinct names in its vertex stage, each of which a node
reads, and under distinct identifiers if vertex inputs share what agrees in usage and index. -/
theorem compile_attributes {settings : Settings} {g : Graph} {a : Artifact}
    (h : compile settings g = .ok a) :
    ∃ s, emission settings g = .ok s ∧ a = s.artifact settings ∧
      ∃ attributes : List VertexAttribute,
        textLines ((s.shader .vertex).blockText .inputs) =
          attributes.map (VertexAttribute.declaration settings.backend.dialect) ∧
        (attributes.map VertexAttribute.name).Nodup ∧
        (∀ a ∈ attributes, ∃ n ∈ g.nodes.values, n.attribute? = some a) ∧
        (g.SharesAttributes →
          (attributes.map (VertexAttribute.identifier settings.backend.dialect)).Nodup) := by
  obtain ⟨s, hemission, ha⟩ := compile_eq_ok_iff.mp h
  obtain ⟨attributes, -, hblock, hnames, hinputs⟩ := (emission_defined hemission).attributed
  refine ⟨s, hemission, ha, attributes, ?_, hnames, hinputs, fun hg ↦
    VertexAttribute.nodup_identifiers hg _ hnames hinputs⟩
  have hlines : ∀ l ∈ attributes.map (VertexAttribute.declaration settings.backend.dialect),
      IsLine l := by
    intro l hl
    obtain ⟨a, -, rfl⟩ := List.mem_map.mp hl
    exact a.isLine_declaration settings.backend
  rw [StageShader.blockText, StageShader.block, hblock, CodeBuffer.textLines_ofLines hlines]

/-- A product of two vertex inputs for one attribute, under the given names. -/
def attributeProduct (name name' : String) : Graph :=
  .numbered
    [.pixelOutput {}, .uniform "tint" .vec4, .vertexOutput, .arithmetic .mul,
      .vertexInput name .position .vec4 0, .vertexInput name' .position .vec4 0]
    [⟨1, "Output", 0, "Input"⟩, ⟨3, "Output", 2, "Input"⟩, ⟨4, "Output", 3, "Input1"⟩,
      ⟨5, "Output", 3, "Input2"⟩]

/-- One name, one declaration. -/
theorem compile_attributes_attributeProduct :
    ∃ a s, compile {} (attributeProduct "position" "position") = .ok a ∧
      emission {} (attributeProduct "position" "position") = .ok s ∧ a = s.artifact {} ∧
      ∃ attributes : List VertexAttribute,
        textLines ((s.shader .vertex).blockText .inputs) =
          attributes.map (VertexAttribute.declaration Dialect.glsl) ∧
        (attributes.map VertexAttribute.name).Nodup ∧
        (∀ a ∈ attributes, ∃ n ∈ (attributeProduct "position" "position").nodes.values,
          n.attribute? = some a) ∧
        ((attributeProduct "position" "position").SharesAttributes →
          (attributes.map (VertexAttribute.identifier Dialect.glsl)).Nodup) := by
  obtain ⟨a, h⟩ := exists_ok_of_isOk (x := compile {} (attributeProduct "position" "position"))
    (by decide +kernel)
  obtain ⟨s, hattributes⟩ := compile_attributes h
  exact ⟨a, s, h, hattributes⟩

/-- Two names, two declarations of one identifier. -/
theorem declaresTwice_attributeProduct :
    (attributeProduct "position" "place").Built ∧
      ∃ a s, compile {} (attributeProduct "position" "place") = .ok a ∧
        emission {} (attributeProduct "position" "place") = .ok s ∧ a = s.artifact {} ∧
        ∃ b c : VertexAttribute, b.identifier .glsl = c.identifier .glsl ∧
          textLines ((s.shader .vertex).blockText .inputs) =
            [b.declaration .glsl, c.declaration .glsl] := by
  have hlines : ((emission {} (attributeProduct "position" "place")).map fun s ↦
      textLines ((s.shader .vertex).blockText .inputs)).toOption =
        some ["in vec4 in_Position0;", "in vec4 in_Position0;"] := by
    decide +kernel
  obtain ⟨s, h, htext⟩ := exists_ok_of_map hlines
  exact ⟨Graph.built_numbered _ _, _, s, compile_eq_ok_iff.mpr ⟨s, h, rfl⟩, h, rfl,
    ⟨"position", .position, .vec4, 0⟩, ⟨"place", .position, .vec4, 0⟩, by decide, htext⟩

end ShaderGraph
