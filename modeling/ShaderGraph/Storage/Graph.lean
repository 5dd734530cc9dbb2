import ShaderGraph.Graph.Store
import ShaderGraph.Storage.FixedFunction

/-!
# Stored form of graphs

The drivers of input pins are not stored; they follow from the connections.
-/

namespace ShaderGraph

/-- An identifier is stored as its text and read in any of its forms. -/
instance : Stored Uuid where
  schema := .text
  store u := .text u.text
  restore?
    | .text s => Uuid.ofText? s
    | _ => none

instance : Stored NodeId := storedWrapper "NodeId" NodeId.uuid NodeId.mk

instance : Stored PinId := storedWrapper "PortId" PinId.uuid PinId.mk

instance : Stored ConnectionId := storedWrapper "ConnectionId" ConnectionId.uuid ConnectionId.mk

def ScriptPin.recordFields : RecordFields ScriptPin ScriptPin :=
  RecordFields.build ScriptPin.mk
    |>.field "name" name
    |>.field "ty" type

instance : Stored ScriptPin := storedRecord "ScriptPin" ScriptPin.recordFields

namespace NodeKind

abbrev Components := Vector Binary32 4

def clampFields : RecordFields (Binary32 × Binary32) NodeKind :=
  RecordFields.build clamp
    |>.field "min" Prod.fst
    |>.field "max" Prod.snd

def colorFields : RecordFields Components NodeKind :=
  RecordFields.build (onQuadruple color)
    |>.field "rgba" id

def conditionalFields : RecordFields (Comparison × BranchHint) NodeKind :=
  RecordFields.build conditional
    |>.field "operator" Prod.fst
    |>.field "branch" Prod.snd

def derivativeFields : RecordFields DerivativeAxis NodeKind :=
  RecordFields.build derivative
    |>.field "axis" id

def discardFields : RecordFields Comparison NodeKind :=
  RecordFields.build discard
    |>.field "operator" id

def indexedUniformFields : RecordFields (String × ValueType × UInt32) NodeKind :=
  RecordFields.build indexedUniform
    |>.field "parameter" Prod.fst
    |>.field "ty" (·.2.1)
    |>.field "length" (·.2.2)

def rangeFields (make : Int32 → Int32 → NodeKind) : RecordFields (Int32 × Int32) NodeKind :=
  RecordFields.build make
    |>.field "from" Prod.fst
    |>.field "to" Prod.snd

def iterate2dFields : RecordFields (Int32 × Int32 × Int32 × Int32) NodeKind :=
  RecordFields.build iterate2d
    |>.field "from_x" Prod.fst
    |>.field "to_x" (·.2.1)
    |>.field "from_y" (·.2.2.1)
    |>.field "to_y" (·.2.2.2)

def logFields : RecordFields LogBase NodeKind :=
  RecordFields.build log
    |>.field "base" id

def pixelOutputFields : RecordFields RenderState NodeKind :=
  RecordFields.build pixelOutput
    |>.field "state" id

def samplerFields : RecordFields SamplerState NodeKind :=
  RecordFields.build sampler
    |>.field "state" id

def scalarFields : RecordFields Binary32 NodeKind :=
  RecordFields.build scalar
    |>.field "value" id

def scriptFields :
    RecordFields (String × String × List ScriptPin × List ScriptPin) NodeKind :=
  RecordFields.build script
    |>.field "name" Prod.fst
    |>.field "body" (·.2.1)
    |>.field "inputs" (·.2.2.1)
    |>.field "outputs" (·.2.2.2)

def swizzleFields : RecordFields String NodeKind :=
  RecordFields.build swizzle
    |>.field "pattern" id

def switchFields : RecordFields (List Int32 × BranchHint) NodeKind :=
  RecordFields.build switch
    |>.field "cases" Prod.fst
    |>.field "branch" Prod.snd

def uniformFields : RecordFields (String × ValueType) NodeKind :=
  RecordFields.build uniform
    |>.field "parameter" Prod.fst
    |>.field "ty" Prod.snd

def vectorFields : RecordFields Components NodeKind :=
  RecordFields.build (onQuadruple vector)
    |>.field "value" id

def vertexInputFields : RecordFields (String × AttributeUsage × ValueType × UInt32) NodeKind :=
  RecordFields.build vertexInput
    |>.field "name" Prod.fst
    |>.field "usage" (·.2.1)
    |>.field "ty" (·.2.2.1)
    |>.field "index" (·.2.2.2)

def externalFields : RecordFields String NodeKind :=
  RecordFields.build external
    |>.field "type_name" id

/-- A kind without configuration is stored under its type name. -/
def plainCase (k : NodeKind) : Case NodeKind :=
  .constant k.typeName k

def cases : List (Case NodeKind) :=
  [plainCase (intrinsic .abs), plainCase (arithmetic .add), plainCase (angle .arcusCos),
    plainCase arcusTan, .ofFields "Clamp" clampFields, .ofFields "Color" colorFields,
    .ofFields "Conditional" conditionalFields, plainCase (angle .cos), plainCase cross,
    .ofFields "Derivative" derivativeFields, .ofFields "Discard" discardFields,
    plainCase (arithmetic .div), plainCase dot, plainCase (intrinsic .exp),
    plainCase (intrinsic .fraction), plainCase fragmentPosition, plainCase frontFace,
    .ofFields "IndexedUniform" indexedUniformFields, plainCase instanceIndex,
    plainCase interpolator, .ofFields "Iterate" (rangeFields iterate),
    .ofFields "Iterate2d" iterate2dFields, plainCase length, plainCase lerp,
    .ofFields "Log" logFields, plainCase matrixIn, plainCase matrixOut,
    plainCase (vectorFunction .max), plainCase (vectorFunction .min), plainCase mixIn,
    plainCase mixOut, plainCase (arithmetic .mul), plainCase mulAdd, plainCase negate,
    plainCase (intrinsic .normalize), .ofFields "PixelOutput" pixelOutputFields,
    plainCase polynomial, plainCase power, plainCase reflect, plainCase (intrinsic .recipSqrt),
    plainCase repeatWhile, plainCase round, .ofFields "Sampler" samplerFields,
    .ofFields "Scalar" scalarFields, .ofFields "Script" scriptFields,
    plainCase (intrinsic .sign), plainCase (angle .sin), plainCase (intrinsic .sqrt),
    plainCase (vectorFunction .step), plainCase (arithmetic .sub),
    .ofFields "Sum" (rangeFields sum), .ofFields "Swizzle" swizzleFields,
    .ofFields "Switch" switchFields, plainCase (angle .tan), plainCase targetSize,
    plainCase textureSize, plainCase transform, plainCase transpose, plainCase truncate,
    .ofFields "Uniform" uniformFields, .ofFields "Vector" vectorFields,
    .ofFields "VertexInput" vertexInputFields, plainCase vertexOutput,
    .ofFields "External" externalFields]

def payload : NodeKind → Datum
  | clamp low high => Case.fieldsPayload clampFields (low, high)
  | color r g b a => Case.fieldsPayload colorFields (quadruple r g b a)
  | conditional comparison hint => Case.fieldsPayload conditionalFields (comparison, hint)
  | derivative axis => Case.fieldsPayload derivativeFields axis
  | discard comparison => Case.fieldsPayload discardFields comparison
  | indexedUniform parameter type count =>
    Case.fieldsPayload indexedUniformFields (parameter, type, count)
  | iterate first last => Case.fieldsPayload (rangeFields iterate) (first, last)
  | iterate2d firstX lastX firstY lastY =>
    Case.fieldsPayload iterate2dFields (firstX, lastX, firstY, lastY)
  | log base => Case.fieldsPayload logFields base
  | pixelOutput state => Case.fieldsPayload pixelOutputFields state
  | sampler state => Case.fieldsPayload samplerFields state
  | scalar value => Case.fieldsPayload scalarFields value
  | script name body inputs outputs =>
    Case.fieldsPayload scriptFields (name, body, inputs, outputs)
  | sum first last => Case.fieldsPayload (rangeFields sum) (first, last)
  | swizzle pattern => Case.fieldsPayload swizzleFields pattern
  | switch cases hint => Case.fieldsPayload switchFields (cases, hint)
  | uniform parameter type => Case.fieldsPayload uniformFields (parameter, type)
  | vector x y z w => Case.fieldsPayload vectorFields (quadruple x y z w)
  | vertexInput name usage type index =>
    Case.fieldsPayload vertexInputFields (name, usage, type, index)
  | external name => Case.fieldsPayload externalFields name
  | _ => .unit

/-- Name of the case of a kind. -/
def caseName : NodeKind → String
  | external _ => "External"
  | k => k.typeName

instance : Stored NodeKind where
  schema := Case.schemaOf cases
  store k := Case.store cases k.caseName k.payload
  restore? := Case.restoreOf? cases

end NodeKind

def Pin.recordFields : RecordFields Pin Pin :=
  RecordFields.build Pin.mk
    |>.field "id" id
    |>.field "name" name
    |>.field "direction" direction
    |>.field "optional" isOptional
    |>.field "default_value" default?

instance : Stored Pin := storedRecord "Port" Pin.recordFields

def Node.recordFields : RecordFields Node Node :=
  RecordFields.build (fun id name ↦ onPair (Node.mk id name))
    |>.field "id" id
    |>.field "name" name
    |>.field "position" (fun n ↦ pair n.x n.y)
    |>.field "kind" kind
    |>.field "inputs" inputs
    |>.field "outputs" outputs

instance : Stored Node := storedRecord "Node" Node.recordFields

def Connection.recordFields : RecordFields Connection Connection :=
  RecordFields.build Connection.mk
    |>.field "id" id
    |>.field "from_node" fromNode
    |>.field "from_port" fromPin
    |>.field "to_node" toNode
    |>.field "to_port" toPin

instance : Stored Connection := storedRecord "Connection" Connection.recordFields

/-- The graph with the given parts, and with the drivers that its connections give. -/
def Graph.ofParts (name : String) (nodes : OrderedMap NodeId Node)
    (connections : OrderedMap ConnectionId Connection) : Graph :=
  Graph.reindex { name, nodes, connections }

def Graph.recordFields : RecordFields Graph Graph :=
  RecordFields.build Graph.ofParts
    |>.field "name" name
    |>.field "nodes" nodes
    |>.field "connections" connections

instance : Stored Graph := storedRecord "Graph" Graph.recordFields

end ShaderGraph
