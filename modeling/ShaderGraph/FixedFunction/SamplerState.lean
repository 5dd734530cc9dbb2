import ShaderGraph.FixedFunction.RenderState
import ShaderGraph.Numeric.Binary32

/-!
# Sampler states
-/

namespace ShaderGraph

inductive Filter
  | point
  | linear
deriving DecidableEq, Repr, Inhabited

instance : Labelled Filter where
  all := [.point, .linear]
  label
    | .point => "Point"
    | .linear => "Linear"

/-- What a sampler reads outside of the texture. -/
inductive Address
  | wrap
  | mirror
  | clamp
  | border
deriving DecidableEq, Repr, Inhabited

instance : Labelled Address where
  all := [.wrap, .mirror, .clamp, .border]
  label
    | .wrap => "Wrap"
    | .mirror => "Mirror"
    | .clamp => "Clamp"
    | .border => "Border"

structure SamplerState where
  minFilter : Filter := .linear
  mipFilter : Filter := .linear
  magFilter : Filter := .linear
  addressU : Address := .wrap
  addressV : Address := .wrap
  addressW : Address := .wrap
  compare : CompareFunction := .noComparison
  mipBias : Binary32 := .zero
  ignoreMips : Bool := false
deriving DecidableEq, Repr, Inhabited

/-- Whether two states sample alike. Biases are compared as numbers, so a state with a NaN bias
differs even from itself. -/
def SamplerState.agrees (s t : SamplerState) : Bool :=
  s.minFilter = t.minFilter && s.mipFilter = t.mipFilter && s.magFilter = t.magFilter &&
    s.addressU = t.addressU && s.addressV = t.addressV && s.addressW = t.addressW &&
    s.compare = t.compare && s.mipBias.sameNumber t.mipBias && s.ignoreMips = t.ignoreMips

end ShaderGraph
