import ShaderGraph.Program.Encoding
import ShaderGraph.Proofs.Binary.Reader
import ShaderGraph.Proofs.Json.Interpretation
import ShaderGraph.Proofs.Ron.Interpretation
import ShaderGraph.Proofs.Storage.Kinds
import ShaderGraph.Storage.Program

/-!
# Encodings of programs are decoded

What is encoded is decoded as the same program, so programs with the same encoding are equal.
-/

namespace ShaderGraph

/-! ## Stored programs

A program is restored from its datum by every format that can hold its floats and its sizes. The
floats are the biases of its samplers.
-/

section

variable {limits : Limits}

instance : LawfulLabelled Backend :=
  .ofAll (by intro a; cases a <;> decide) (by decide) (by decide)

instance : LawfulLabelled ShaderStage :=
  .ofAll (by intro a; cases a <;> decide) (by decide) (by decide)

theorem Restores.stages {stages : List ShaderStage} (hsize : limits.size stages.length) :
    Restores limits stages :=
  .list hsize fun stage _ ↦ .labelled stage

/-! ### Declarations -/

/-- Sizes of the name and of the list of stages. -/
def UniformDeclaration.sizes (u : UniformDeclaration) : List Nat :=
  [u.name.utf8ByteSize, u.stages.length]

theorem UniformDeclaration.restores {u : UniformDeclaration} (hword : limits.optional .word)
    (hsizes : ∀ n ∈ u.sizes, limits.size n) : Restores limits u := by
  simp only [sizes, List.forall_mem_cons] at hsizes
  obtain ⟨hname, hstages, -⟩ := hsizes
  have hfields := RecordFields.Restores.build limits u UniformDeclaration.mk
    |>.field "name" name (.text hname)
    |>.field "ty" type (.labelled _)
    |>.field "length" length? (.option hword fun count _ ↦ .word count)
    |>.field "stages" stages (.stages hstages)
  exact .record (by decide) (by decide) hfields

/-- Sizes of both names and of the list of stages. -/
def SamplerDeclaration.sizes (s : SamplerDeclaration) : List Nat :=
  [s.name.utf8ByteSize, s.texture.utf8ByteSize, s.stages.length]

theorem SamplerDeclaration.restores {s : SamplerDeclaration} (hbias : limits.float s.state.mipBias)
    (hsizes : ∀ n ∈ s.sizes, limits.size n) : Restores limits s := by
  simp only [sizes, List.forall_mem_cons] at hsizes
  obtain ⟨hname, htexture, hstages, -⟩ := hsizes
  have hfields := RecordFields.Restores.build limits s SamplerDeclaration.mk
    |>.field "name" name (.text hname)
    |>.field "texture" texture (.text htexture)
    |>.field "texture_type" textureType (.labelled _)
    |>.field "state" state (SamplerState.restores hbias)
    |>.field "stages" stages (.stages hstages)
  exact .record (by decide) (by decide) hfields

theorem Requirements.restores (r : Requirements) : Restores limits r := by
  have hfields := RecordFields.Restores.build limits r Requirements.mk
    |>.field "derivatives" derivatives (.bool _)
    |>.field "transpose" transpose (.bool _)
    |>.field "front_face" frontFace (.bool _)
    |>.field "fragment_position" fragmentPosition (.bool _)
    |>.field "instance_id" instanceId (.bool _)
    |>.field "target_size" targetSize (.bool _)
  exact .record (by decide) (by decide) hfields

/-! ### Programs -/

namespace Artifact

/-- Sizes of all texts in bytes and of all lists. -/
def sizes (a : Artifact) : List Nat :=
  [a.vertexSource.utf8ByteSize, a.pixelSource.utf8ByteSize, a.uniforms.length, a.samplers.length] ++
    a.uniforms.flatMap UniformDeclaration.sizes ++ a.samplers.flatMap SamplerDeclaration.sizes

/-- The biases of the samplers, which are all floats of a program. -/
def biases (a : Artifact) : List Binary32 :=
  a.samplers.map fun s ↦ s.state.mipBias

theorem restores {a : Artifact} (hword : limits.optional .word)
    (hbiases : ∀ x ∈ a.biases, limits.float x) (hsizes : ∀ n ∈ a.sizes, limits.size n) :
    Restores limits a := by
  simp only [sizes, List.forall_mem_append, List.forall_mem_cons, List.forall_mem_flatMap] at hsizes
  obtain ⟨⟨⟨hvertex, hpixel, huniforms, hsamplers, -⟩, huniform⟩, hsampler⟩ := hsizes
  have huniforms : Restores limits a.uniforms :=
    .list huniforms fun u hu ↦ u.restores hword (huniform u hu)
  have hsamplers : Restores limits a.samplers := .list hsamplers fun s hs ↦
    s.restores (hbiases _ (List.mem_map_of_mem hs)) (hsampler s hs)
  have hfields := RecordFields.Restores.build limits a Artifact.mk
    |>.field "backend" backend (.labelled _)
    |>.field "vertex_source" vertexSource (.text hvertex)
    |>.field "pixel_source" pixelSource (.text hpixel)
    |>.field "uniforms" uniforms huniforms
    |>.field "samplers" samplers hsamplers
    |>.field "interpolator_count" interpolatorCount (.word _)
    |>.field "render_state" renderState (RenderState.restores _)
    |>.field "requirements" requirements (Requirements.restores _)
  exact .record (by decide) (by decide) hfields

end Artifact

end

/-! ## Encodings -/

namespace Artifact

variable {a b : Artifact}

/-! ### Bytes -/

theorem restores_bytes (hsizes : ∀ n ∈ a.sizes, n < 2 ^ 64) : Restores .bytes a :=
  restores trivial (fun _ _ ↦ trivial) hsizes

theorem decode?_binary (hsizes : ∀ n ∈ a.sizes, n < 2 ^ 64) :
    decode? .binary (a.encode .binary) = some a := by
  have hrestores := restores_bytes hsizes
  have hread : Binary.readDatum (Stored.schema Artifact) (Binary.write (store a)) =
      some (store a, []) := by
    have h := Binary.reads_datum hrestores.admits []
    rwa [List.append_nil] at h
  simp only [encode, decode?, Binary.read?, hread, Option.bind_eq_bind, Option.bind_some]
  exact hrestores.restores

/-- The bytes of every program with sizes of up to 64 bits are decoded to it, and all of them are
read: what follows them is left. No other such program has the same bytes. -/
theorem binary_decodes (hsizes : ∀ n ∈ a.sizes, n < 2 ^ 64) :
    decode? .binary (a.encode .binary) = some a ∧
      (∀ rest, Binary.readDatum (Stored.schema Artifact) ((a.encode .binary).toBytes ++ rest) =
        some (store a, rest)) ∧
      ∀ b : Artifact, (∀ n ∈ b.sizes, n < 2 ^ 64) → b.encode .binary = a.encode .binary → b = a := by
  refine ⟨decode?_binary hsizes, Binary.reads_datum (restores_bytes hsizes).admits,
    fun b hb hencode ↦ ?_⟩
  have hdecode : some b = some a := by
    rw [← decode?_binary hb, hencode, decode?_binary hsizes]
  exact Option.some.inj hdecode

/-- A program with texts of several bytes a character, an array and a bias that is no number. -/
def unusual : Artifact where
  backend := .hlsl
  vertexSource := "größe\n"
  pixelSource := "\x00\"\\"
  uniforms := [⟨"名前", .vec4, some 3, [.vertex, .pixel]⟩, ⟨"", .scalar, none, []⟩]
  samplers := [⟨"s0", "t", .texture2D, { mipBias := .nan true }, [.pixel]⟩]
  interpolatorCount := 2
  renderState := {}
  requirements := { derivatives := true }

theorem binary_decodes_unusual :
    (∀ n ∈ unusual.sizes, n < 2 ^ 64) ∧
      decode? .binary (unusual.encode .binary) = some unusual :=
  have hsizes : ∀ n ∈ unusual.sizes, n < 2 ^ 64 := by decide
  ⟨hsizes, (binary_decodes hsizes).1⟩

/-! ### Texts -/

theorem decode?_ron (hfinite : ∀ x ∈ a.biases, x.isFinite = true) :
    decode? .ron (a.encode .ron) = some a := by
  have hrestores : Restores .document a := restores trivial hfinite fun _ _ ↦ trivial
  simp only [encode, decode?, Ron.read?_write hrestores.admits, Option.bind_eq_bind,
    Option.bind_some]
  exact hrestores.restores

theorem restores_json {float? : Json.Numeral → Option Binary32}
    (hbiases : ∀ x ∈ a.biases, (Json.limits float?).float x) : Restores (Json.limits float?) a :=
  restores rfl hbiases fun _ _ ↦ trivial

theorem decode?_json (hfinite : ∀ x ∈ a.biases, x.isFinite = true)
    (hread : ∀ x ∈ a.biases, Json.read? .float (Json.write (.float x)) = some (.float x)) :
    decode? .json (a.encode .json) = some a := by
  have hrestores : Restores (Json.limits Json.floatOf?) a := restores_json fun x hx ↦
    ⟨hfinite x hx, Json.floatOf?_of_read? (hfinite x hx) (hread x hx)⟩
  simp only [encode, decode?, Json.read?_write hrestores.admits, Option.bind_eq_bind,
    Option.bind_some]
  exact hrestores.restores

/-- Numbers in JSON tell finite floats apart, however they are rounded when they are read. -/
theorem eq_of_encode_json (ha : ∀ x ∈ a.biases, x.isFinite = true)
    (hb : ∀ x ∈ b.biases, x.isFinite = true) (h : b.encode .json = a.encode .json) : b = a := by
  have hexact {c : Artifact} (hc : ∀ x ∈ c.biases, x.isFinite = true) :
      Restores (Json.limits Json.nearest?) c :=
    restores_json fun x hx ↦ ⟨hc x hx, fun n hn ↦ Json.nearest?_of_readsNumber (hc x hx) hn⟩
  have hstore : store b = store a :=
    Json.eq_of_write (hexact hb).admits (hexact ha).admits (Encoded.text.inj h)
  have hrestore : some b = some a := by
    rw [← (hexact hb).restores, hstore, (hexact ha).restores]
  exact Option.some.inj hrestore

/-- No other program with finite biases has the same text as a program with finite biases, in either
format. The program is decoded from its text: from RON always, and from JSON if each bias alone is read
back as itself, since numbers in JSON are rounded to 64 bits first. -/
theorem texts_decode (hfinite : ∀ x ∈ a.biases, x.isFinite = true) :
    (∀ format ∈ [ArtifactFormat.ron, .json], ∀ b : Artifact, (∀ x ∈ b.biases, x.isFinite = true) →
      b.encode format = a.encode format → b = a) ∧
    decode? .ron (a.encode .ron) = some a ∧
    ((∀ x ∈ a.biases, Json.read? .float (Json.write (.float x)) = some (.float x)) →
      decode? .json (a.encode .json) = some a) := by
  refine ⟨?_, decode?_ron hfinite, decode?_json hfinite⟩
  intro format hformat b hb hencode
  obtain rfl | rfl : format = .ron ∨ format = .json := by simpa using hformat
  · have hdecode : some b = some a := by
      rw [← decode?_ron hb, hencode, decode?_ron hfinite]
    exact Option.some.inj hdecode
  · exact eq_of_encode_json hfinite hb hencode

/-- A program with texts that are written with escapes and biases of many digits. -/
def inscribed : Artifact :=
  { unusual with samplers :=
      [⟨"s0", "t", .texture2D, { mipBias := ⟨0x3dcccccd⟩ }, [.pixel]⟩,
        ⟨"s\t1", "t", .textureCube, { mipBias := ⟨0x80000001⟩ }, []⟩] }

theorem texts_decode_inscribed :
    (∀ x ∈ inscribed.biases, x.isFinite = true) ∧
      decode? .ron (inscribed.encode .ron) = some inscribed ∧
      decode? .json (inscribed.encode .json) = some inscribed :=
  have hfinite : ∀ x ∈ inscribed.biases, x.isFinite = true := by decide
  have hread : ∀ x ∈ inscribed.biases,
      Json.read? .float (Json.write (.float x)) = some (.float x) :=
    List.forall_mem_cons.mpr ⟨rfl, List.forall_mem_singleton.mpr rfl⟩
  have h := texts_decode hfinite
  ⟨hfinite, h.2.1, h.2.2 hread⟩

end Artifact

end ShaderGraph
