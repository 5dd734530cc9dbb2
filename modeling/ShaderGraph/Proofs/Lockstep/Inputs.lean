import ShaderGraph.Emission.Node
import ShaderGraph.Proofs.Lockstep.Declarations

/-!
# Inputs in lockstep

Emitters whose demands are in lockstep read their inputs in lockstep.
-/

namespace ShaderGraph

namespace Lock

variable {L : Lock} {running : List NodeId}

theorem texts_eq {xs ys : List String} (h : List.Forall₂ L.Text xs ys) (hexact : L.exact) :
    ys = xs := by
  induction h with
  | nil => rfl
  | cons h _ ih => rw [h hexact, ih]

/-- Demands in lockstep. -/
def Agree (L : Lock) (running : List NodeId) (demand demand' : Demand) : Prop :=
  ∀ id id' pin pin', L.matching.node id id' → L.matching.pin pin pin' →
    L.Lockstep running L.Value (demand id pin) (demand' id' pin')

namespace Lockstep

variable {demand demand' : Demand} {n m : Node}

theorem hoist (hdemand : L.Agree running demand demand') {outputs outputs' : List OutputRef}
    (h : List.Forall₂ L.matching.Outputs outputs outputs') :
    L.Lockstep running Eq (EmitM.hoist demand outputs) (EmitM.hoist demand' outputs') :=
  .forM h fun _ _ ho ↦ .seq (hdemand _ _ _ _ ho.node ho.pin) (.pure rfl)

variable (hn : L.Twin n m)

include hn

section Demands

variable (hdemand : L.Agree running demand demand')

include hdemand

theorem inputValue? (pin : String) :
    L.Lockstep running (Option.Rel L.Value) (EmitM.inputValue? demand n pin)
      (EmitM.inputValue? demand' m pin) := by
  unfold EmitM.inputValue?
  have hpins := hn.input? pin
  generalize n.input? pin = p? at hpins ⊢
  generalize m.input? pin = q? at hpins ⊢
  cases hpins with
  | none => exact .throw fun h ↦ by rw [hn.same h]
  | @some p q hpq =>
    refine .read_bind ?_
    have hdrivers := L.graphs.drivers _ _ hpq.id
    generalize L.left.graph.driver? p.id = c? at hdrivers ⊢
    generalize L.right.graph.driver? q.id = d? at hdrivers ⊢
    cases hdrivers with
    | some hcd => exact .bind (hdemand _ _ _ _ hcd.node hcd.pin) fun v w hv ↦ .pure (.some hv)
    | none =>
      dsimp only
      rw [hpq.default?, hpq.isOptional]
      split
      · next l hl =>
        refine .dialect_bind (.pure (.some ⟨rfl, fun h ↦ ?_, fun h ↦ by rw [L.dialect_eq h]⟩))
        cases l <;> cases h
      · exact .ite (fun _ ↦ .pure .none) fun _ ↦ .throw fun h ↦ by rw [hn.same h]

theorem requireInput (pin : String) :
    L.Lockstep running L.Value (EmitM.requireInput demand n pin)
      (EmitM.requireInput demand' m pin) := by
  refine .bind (inputValue? hn hdemand pin) fun _ _ h ↦ ?_
  cases h with
  | none => exact .throw fun h ↦ by rw [hn.same h]
  | some hv => exact .pure hv

/-- Inputs of which a condition on the type is required. -/
theorem typedInput (pin expectation : String) (p : ValueType → Prop) [DecidablePred p] :
    L.Lockstep running (fun v w ↦ L.Value v w ∧ p v.type)
      (do
        let v ← EmitM.requireInput demand n pin
        if p v.type then return v
        else MonadExcept.throw (CompileError.expected n pin expectation v.type))
      (do
        let v ← EmitM.requireInput demand' m pin
        if p v.type then return v
        else MonadExcept.throw (CompileError.expected m pin expectation v.type)) := by
  refine .bind (requireInput hn hdemand pin) fun v w hv ↦ ?_
  rw [hv.type]
  exact .ite (fun h ↦ .pure ⟨hv, h⟩) fun _ ↦ .throw fun h ↦ by rw [hn.same h]

theorem vectorInput (pin : String) :
    L.Lockstep running (fun v w ↦ L.Value v w ∧ v.type.isVector) (EmitM.vectorInput demand n pin)
      (EmitM.vectorInput demand' m pin) :=
  typedInput hn hdemand pin _ (·.isVector)

theorem scalarInput (pin : String) :
    L.Lockstep running (fun v w ↦ L.Value v w ∧ v.type = .scalar) (EmitM.scalarInput demand n pin)
      (EmitM.scalarInput demand' m pin) :=
  typedInput hn hdemand pin _ (· = .scalar)

theorem matrixInput (pin : String) :
    L.Lockstep running (fun v w ↦ L.Value v w ∧ v.type = .matrix4) (EmitM.matrixInput demand n pin)
      (EmitM.matrixInput demand' m pin) :=
  typedInput hn hdemand pin _ (· = .matrix4)

theorem textureInput (pin : String) :
    L.Lockstep running (fun v w ↦ L.Value v w ∧ v.type.isTexture)
      (EmitM.textureInput demand n pin) (EmitM.textureInput demand' m pin) :=
  typedInput hn hdemand pin _ (·.isTexture)

theorem scalarOperand (pin : String) :
    L.Lockstep running L.Text (EmitM.scalarOperand demand n pin)
      (EmitM.scalarOperand demand' m pin) :=
  .bind (requireInput hn hdemand pin) fun _ _ hv ↦ .cast hn hv .scalar

end Demands

theorem assignOutput {t t' : ValueType} {e e' : String} (ht : t' = t) (he : L.Text e e') :
    L.Lockstep running Eq (EmitM.assignOutput n t e) (EmitM.assignOutput m t' e') := by
  rw [ht]
  exact .bind (.emitOutput hn _ t) fun _ _ hv ↦ .assign hn hv he

theorem forwardOutput {v w : Variable} (hv : L.Value v w) :
    L.Lockstep running Eq (EmitM.forwardOutput n v) (EmitM.forwardOutput m w) :=
  .seq (.bindOutput hn _ hv) (.pure rfl)

end Lockstep

end Lock

end ShaderGraph
