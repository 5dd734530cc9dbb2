import ShaderGraph.FixedFunction.SamplerState
import ShaderGraph.Storage.Stored
import ShaderGraph.Value.Literal

/-!
# Stored form of fixed-function states and literals
-/

namespace ShaderGraph

instance : Stored ColorWriteMask :=
  storedWrapper "ColorWriteMask" ColorWriteMask.bits ColorWriteMask.mk

def RenderState.recordFields : RecordFields RenderState RenderState :=
  RecordFields.build RenderState.mk
    |>.field "cull_mode" cullMode
    |>.field "blend_enable" blendEnable
    |>.field "blend_operation" blendOperation
    |>.field "blend_source" blendSource
    |>.field "blend_destination" blendDestination
    |>.field "color_write_mask" colorWriteMask
    |>.field "depth_enable" depthEnable
    |>.field "depth_write_enable" depthWriteEnable
    |>.field "depth_function" depthFunction
    |>.field "alpha_test_enable" alphaTestEnable
    |>.field "alpha_test_function" alphaTestFunction
    |>.field "alpha_test_reference" alphaTestReference
    |>.field "stencil_enable" stencilEnable
    |>.field "stencil_fail" stencilFail
    |>.field "stencil_z_fail" stencilZFail
    |>.field "stencil_pass" stencilPass
    |>.field "stencil_function" stencilFunction
    |>.field "stencil_reference" stencilReference
    |>.field "stencil_mask" stencilMask

instance : Stored RenderState := storedRecord "RenderState" RenderState.recordFields

def SamplerState.recordFields : RecordFields SamplerState SamplerState :=
  RecordFields.build SamplerState.mk
    |>.field "min_filter" minFilter
    |>.field "mip_filter" mipFilter
    |>.field "mag_filter" magFilter
    |>.field "address_u" addressU
    |>.field "address_v" addressV
    |>.field "address_w" addressW
    |>.field "compare" compare
    |>.field "mip_bias" mipBias
    |>.field "ignore_mips" ignoreMips

instance : Stored SamplerState := storedRecord "SamplerState" SamplerState.recordFields

namespace Literal

def cases : List (Case Literal) :=
  [.single "Scalar" scalar,
    .single "Vector2" (onPair vector2),
    .single "Vector3" (onTriple vector3),
    .single "Vector4" (onQuadruple vector4)]

def stored : Literal → Datum
  | scalar x => Case.store cases "Scalar" (store x)
  | vector2 x y => Case.store cases "Vector2" (store (pair x y))
  | vector3 x y z => Case.store cases "Vector3" (store (triple x y z))
  | vector4 x y z w => Case.store cases "Vector4" (store (quadruple x y z w))

instance : Stored Literal where
  schema := Case.schemaOf cases
  store := stored
  restore? := Case.restoreOf? cases

end Literal

end ShaderGraph
