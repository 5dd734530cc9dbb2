import ShaderGraph.Proofs.Emission.Control
import ShaderGraph.Proofs.Graph.Wiring

/-!
# Common types of several operands

Two operands have the type in common to which both adapt. So the common type of several operands is the
one among them to which all adapt, in whatever order they are combined, except that two operands without
a type have none in common: they must not come first, although either adapts to any third that has one.
-/

namespace ShaderGraph

namespace ValueType

variable {a b c t : ValueType} {ts us : List ValueType}

/-- The operands have a type among them to which all adapt. -/
structure IsWidest (ts : List ValueType) (t : ValueType) : Prop where
  mem : t ∈ ts
  adapts : ∀ a ∈ ts, common a t = .ok t

theorem IsWidest.perm (h : ts.Perm us) (ht : IsWidest ts t) : IsWidest us t where
  mem := h.mem_iff.mp ht.mem
  adapts a ha := ht.adapts a (h.mem_iff.mpr ha)

theorem mem_all (t : ValueType) : t ∈ (Labelled.all : List ValueType) := by
  cases t <;> decide

theorem common_comm (h : common a b = .ok c) : common b a = .ok c := by
  cases a <;> cases b <;> first | exact h | cases h

theorem eq_or_eq_of_common (h : common a b = .ok c) : c = a ∨ c = b := by
  cases a <;> cases b <;> cases h <;> decide

theorem common_self (h : a.isNumeric) : common a a = .ok a := by
  cases a <;> first | rfl | cases h

/-- The type that two operands have in common adapts to what both adapt to, and to nothing else. -/
theorem common_bind_common (hvoid : ¬ (a = void ∧ b = void)) :
    (common a b >>= fun c ↦ common c t) = .ok t ↔ common a t = .ok t ∧ common b t = .ok t := by
  have hall : ∀ a ∈ (Labelled.all : List ValueType), ∀ b ∈ (Labelled.all : List ValueType),
      ∀ t ∈ (Labelled.all : List ValueType), ¬ (a = void ∧ b = void) →
        ((common a b >>= fun c ↦ common c t) = .ok t ↔
          common a t = .ok t ∧ common b t = .ok t) := by
    decide +kernel
  exact hall a (mem_all a) b (mem_all b) t (mem_all t) hvoid

/-- The first two of several operands may be replaced by the type that they have in common. -/
theorem isWidest_cons_cons_iff (hvoid : ¬ (a = void ∧ b = void)) :
    IsWidest (a :: b :: ts) t ↔ ∃ c, common a b = .ok c ∧ IsWidest (c :: ts) t := by
  constructor
  · rintro ⟨hmem, hadapts⟩
    have ha := hadapts a List.mem_cons_self
    have hb := hadapts b (List.mem_cons_of_mem a List.mem_cons_self)
    have hbind := (common_bind_common hvoid).mpr ⟨ha, hb⟩
    cases hc : common a b with
    | error e =>
      rw [hc] at hbind
      cases hbind
    | ok c =>
      rw [hc] at hbind
      refine ⟨c, rfl, ?_, List.forall_mem_cons.mpr ⟨hbind, fun u hu ↦
        hadapts u (List.mem_cons_of_mem a (List.mem_cons_of_mem b hu))⟩⟩
      -- An operand to which the other one adapts is what they have in common.
      have hcommon : t = a ∨ t = b → t = c := by
        rintro (rfl | rfl)
        · exact Except.ok.inj ((common_comm hb).symm.trans hc)
        · exact Except.ok.inj (ha.symm.trans hc)
      simp only [List.mem_cons] at hmem ⊢
      rw [← or_assoc] at hmem
      exact hmem.imp_left hcommon
  · rintro ⟨c, hc, hmem, hadapts⟩
    obtain ⟨hbind, hadapts⟩ := List.forall_mem_cons.mp hadapts
    obtain ⟨ha, hb⟩ := (common_bind_common hvoid).mp
      (show (common a b >>= fun c ↦ common c t) = .ok t by rw [hc]; exact hbind)
    refine ⟨?_, List.forall_mem_cons.mpr ⟨ha, List.forall_mem_cons.mpr ⟨hb, hadapts⟩⟩⟩
    rcases List.mem_cons.mp hmem with rfl | hmem
    · obtain rfl | rfl := eq_or_eq_of_common hc <;> simp
    · exact List.mem_cons_of_mem a (List.mem_cons_of_mem b hmem)

/-- The first two are combined, and their type with the rest. -/
theorem foldlM_common_cons_iff (hvoid : ¬ (a = void ∧ b = void))
    (hrest : ∀ c, c.isNumeric → (ts.foldlM common c = .ok t ↔ IsWidest (c :: ts) t)) :
    (b :: ts).foldlM common a = .ok t ↔ IsWidest (a :: b :: ts) t := by
  rw [List.foldlM_cons, isWidest_cons_cons_iff hvoid]
  cases hc : common a b with
  | error e => exact ⟨fun h ↦ (by cases h), fun ⟨c, hc, _⟩ ↦ by cases hc⟩
  | ok c =>
    have hrest := hrest c (common_isNumeric hc)
    refine ⟨fun h ↦ ⟨c, rfl, hrest.mp h⟩, ?_⟩
    rintro ⟨_, ⟨⟩, h⟩
    exact hrest.mpr h

theorem foldlM_common_eq_ok_iff (ha : a.isNumeric) :
    ts.foldlM common a = .ok t ↔ IsWidest (a :: ts) t := by
  induction ts generalizing a with
  | nil =>
    refine ⟨fun h ↦ ?_, fun ⟨hmem, _⟩ ↦ ?_⟩
    · obtain rfl := Except.ok.inj h
      exact ⟨List.mem_singleton.mpr rfl, by simpa using common_self ha⟩
    · rw [List.mem_singleton.mp hmem]
      rfl
  | cons b ts ih =>
    have hvoid : ¬ (a = void ∧ b = void) := by
      rintro ⟨rfl, -⟩
      cases ha
    exact foldlM_common_cons_iff hvoid fun c hc ↦ ih hc

/-- Several operands have a type in common if and only if all adapt to it and not both of the first two
are without a type. -/
theorem commonOf_cons_cons_eq_ok_iff :
    commonOf (a :: b :: ts) = .ok t ↔ IsWidest (a :: b :: ts) t ∧ ¬ [void, void] <+: a :: b :: ts := by
  have hvoids : [void, void] <+: a :: b :: ts ↔ a = void ∧ b = void := by
    simp [List.cons_prefix_cons, eq_comm]
  rw [hvoids]
  by_cases hvoid : a = void ∧ b = void
  · obtain ⟨rfl, rfl⟩ := hvoid
    exact ⟨fun h ↦ (by cases h), fun ⟨_, h⟩ ↦ absurd ⟨rfl, rfl⟩ h⟩
  · rw [and_iff_left hvoid]
    exact foldlM_common_cons_iff hvoid fun c hc ↦ foldlM_common_eq_ok_iff hc

theorem commonOf_eq_error_of_voids (h : [void, void] <+: ts) :
    commonOf ts = .error (.incompatible void void) := by
  obtain ⟨rest, rfl⟩ := h
  rfl

/-- Operands that come in another order have the same type in common, unless two without a type have come
to stand first. -/
theorem commonOf_eq_ok_iff_of_perm (h : ts.Perm us) (ht : commonOf ts = .ok t) :
    commonOf us = .ok t ↔ ¬ [void, void] <+: us := by
  refine ⟨fun hus hvoid ↦ ?_, fun hvoid ↦ ?_⟩
  · rw [commonOf_eq_error_of_voids hvoid] at hus
    cases hus
  · have hlength := h.length_eq
    cases ts with
    | nil => cases ht
    | cons a ts =>
      cases ts with
      | nil => rwa [List.singleton_perm.mp h] at ht
      | cons b ts =>
        obtain ⟨c, d, vs, rfl⟩ : ∃ c d vs, us = c :: d :: vs := by
          cases us with
          | nil => cases hlength
          | cons c us =>
            cases us with
            | nil => cases hlength
            | cons d us => exact ⟨c, d, us, rfl⟩
        obtain ⟨hwidest, -⟩ := commonOf_cons_cons_eq_ok_iff.mp ht
        exact commonOf_cons_cons_eq_ok_iff.mpr ⟨hwidest.perm h, hvoid⟩

/-- What operands have in common does not depend on their order, but whether it is found does: it is not
if and only if two operands without a type come first. -/
theorem commonOf_perm (h : ts.Perm us) (ht : commonOf ts = .ok t) :
    (commonOf us = .ok t ↔ ¬ [void, void] <+: us) ∧
      (commonOf us = .error (.incompatible void void) ↔ [void, void] <+: us) := by
  have hok := commonOf_eq_ok_iff_of_perm h ht
  refine ⟨hok, fun herror ↦ ?_, commonOf_eq_error_of_voids⟩
  by_contra hvoid
  rw [hok.mpr hvoid] at herror
  cases herror

theorem commonOf_perm_swap :
    [vec2, void, vec3].Perm [void, vec2, vec3] ∧ commonOf [vec2, void, vec3] = .ok vec3 ∧
      (commonOf [void, vec2, vec3] = .ok vec3 ↔ ¬ [void, void] <+: [void, vec2, vec3]) ∧
      (commonOf [void, vec2, vec3] = .error (.incompatible void void) ↔
        [void, void] <+: [void, vec2, vec3]) :=
  ⟨.swap .., rfl, commonOf_perm (.swap ..) rfl⟩

end ValueType

namespace Emitter

open EmitM

variable {env : EmitEnv} {n : Node} {bs cs : List Branch} {s t : EmitState} {output : Variable}

/-- Branches in another order declare the same output, and the type of it is not found only if two
branches without a type have come to stand first. -/
theorem returns_branchOutput_iff_of_perm (h : bs.Perm cs)
    (hs : Returns env (branchOutput n bs) s output t) :
    Returns env (branchOutput n cs) s output t ↔
      ¬ [.void, .void] <+: cs.map fun b ↦ b.value.type := by
  obtain ⟨type, p, name, htype, hp, hname, houtput, ht⟩ := returns_branchOutput.mp hs
  have hcommon := ValueType.commonOf_eq_ok_iff_of_perm (h.map fun b ↦ b.value.type) htype
  rw [← hcommon, returns_branchOutput]
  constructor
  · rintro ⟨type', p', name', htype', hp', hname', houtput', ht'⟩
    obtain rfl : type = type' := congrArg Variable.type (houtput.symm.trans houtput')
    exact htype'
  · exact fun htype' ↦ ⟨type, p, name, htype', hp, hname, houtput, ht⟩

end Emitter

/-- A loop whose body selects among its own output, twice, and a vector, by the given cases. -/
def switchInLoop (cases : List Int32) : Graph :=
  .numbered
    [.pixelOutput {}, .iterate 0 3, .switch cases .auto, .uniform "select" .scalar,
      .uniform "place" .vec2]
    [⟨1, "Output", 0, "Input"⟩, ⟨2, "Output", 1, "Input"⟩, ⟨3, "Output", 2, "Select"⟩,
      ⟨1, "Output", 2, "Case 0"⟩, ⟨1, "Output", 2, "Case 1"⟩, ⟨4, "Output", 2, "Case 2"⟩,
      ⟨4, "Output", 2, "Default"⟩]

/-- Three operands have a type in common in one order and none in another, and so the same cases of a
switch compile in one order and not in another. -/
theorem compile_switchInLoop :
    [ValueType.vec2, .void, .void].Perm [.void, .void, .vec2] ∧
      ValueType.commonOf [.vec2, .void, .void] = .ok .vec2 ∧
      ValueType.commonOf [.void, .void, .vec2] = .error (.incompatible .void .void) ∧
      (switchInLoop [2, 0, 1]).Built ∧ (switchInLoop [0, 1, 2]).Built ∧
      (compile {} (switchInLoop [2, 0, 1])).isOk ∧
      compile {} (switchInLoop [0, 1, 2]) =
        .error (.typeMismatch ⟨Graph.nodeNumber 2, "Switch", "Switch"⟩
          "void and void have no common type") :=
  ⟨by decide, rfl, rfl, Graph.built_numbered _ _, Graph.built_numbered _ _, by decide +kernel,
    by decide +kernel⟩

end ShaderGraph
