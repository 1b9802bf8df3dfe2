import NetTrial.Graph.Evaluation
import NetTrial.Json.Decoder
import NetTrial.Json.Printer
/-!
# The document of a graph model

A model is written as a pretty JSON document with every field in place. It is read with
defaults for what may be left out. An operation names its kind in the member `op`, which
may stand anywhere among its fields, so the operation is kept whole before it is read.
-/

namespace NetTrial.Graph

open Json

/-! ## Writing -/

/-- The name of a rim treatment. -/
def Padding.name : Padding → String
  | .same => "SAME"
  | .valid => "VALID"

/-- The name of an activation. -/
def Activation.name : Activation → String
  | .none => "none"
  | .relu => "relu"
  | .relu6 => "relu6"

/-- The fields of a convolution. -/
def Convolution.members (c : Convolution) : List (Token × Json) :=
  [ member "filter_shape" (list nat c.filterShape.shape),
    member "filter" (list single c.filter),
    member "bias" (optional (list single) c.bias),
    member "strides" (list nat [c.strides.1, c.strides.2]),
    member "dilations" (list nat [c.dilations.1, c.dilations.2]),
    member "padding" (string c.padding.name),
    member "activation" (string c.activation.name) ]

/-- An operation. -/
def Op.toJson : Op → Json
  | .conv c => .object (member "op" (string "conv2d") :: c.members)
  | .depthwise c => .object (member "op" (string "depthwise_conv2d") :: c.members)
  | .addBias bias => .object [member "op" (string "bias_add"), member "bias" (list single bias)]
  | .activate kind => .object [member "op" (string "activation"), member "kind" (string kind.name)]
  | .reshape shape => .object [member "op" (string "reshape"), member "shape" (list nat shape)]

/-- A model. -/
def Model.toJson (m : Model) : Json :=
  .object
    [ member "schema_version" (nat m.version),
      member "input" (.object
        [member "shape" (list nat m.input.shape), member "dtype" (string m.input.kind.name)]),
      member "ops" (list Op.toJson m.ops) ]

/-- The document of a model. -/
def Model.text (m : Model) : String := m.toJson.pretty

/-- The bytes of the document of a model. -/
def Model.bytes (m : Model) : Text.Bytes := m.toJson.prettyBytes

/-! ## Reading -/

/-- The rim treatment of a name. -/
def Padding.ofName? (name : String) : Option Padding :=
  if name = "SAME" then some .same else if name = "VALID" then some .valid else none

/-- The activation of a name. -/
def Activation.ofName? (name : String) : Option Activation :=
  if name = "none" then some .none
  else if name = "relu" then some .relu
  else if name = "relu6" then some .relu6
  else Option.none

/-- A dimension. -/
def asDimension : Json → Decoded Nat := asNat wordLimit

/-- A pair of dimensions. -/
def asPair (j : Json) : Decoded (Nat × Nat) := do
  match ← asTuple 2 asDimension j with
  | [a, b] => return (a, b)
  | _ => malformed

/-- The dimensions of a filter. -/
def asFilterShape (j : Json) : Decoded FilterShape := do
  match ← asTuple 4 asDimension j with
  | [a, b, c, d] => return ⟨a, b, c, d⟩
  | _ => malformed

/-- A rim treatment. -/
def asPadding : Json → Decoded Padding := asChoice .nullOrObject Padding.ofName?

/-- An activation. -/
def asActivation : Json → Decoded Activation := asChoice .nullOrObject Activation.ofName?

/-- The fields of a convolution. -/
inductive ConvolutionField where
  /-- The dimensions of the filter. -/
  | filterShape
  /-- The weights. -/
  | filter
  /-- The bias. -/
  | bias
  /-- The strides. -/
  | strides
  /-- The dilations. -/
  | dilations
  /-- The rim treatment. -/
  | padding
  /-- The activation. -/
  | activation
  deriving DecidableEq

/-- The record of a convolution. -/
def convolutionRecord : Record ConvolutionField where
  order := [.filterShape, .filter, .bias, .strides, .dilations, .padding, .activation]
  name
    | .filterShape => "filter_shape"
    | .filter => "filter"
    | .bias => "bias"
    | .strides => "strides"
    | .dilations => "dilations"
    | .padding => "padding"
    | .activation => "activation"
  data
    | .filterShape => FilterShape
    | .filter => List Single
    | .bias => Option (List Single)
    | .strides => Nat × Nat
    | .dilations => Nat × Nat
    | .padding => Padding
    | .activation => Activation
  decode
    | .filterShape => asFilterShape
    | .filter => asList asSingle
    | .bias => asOptional (asList asSingle)
    | .strides => asPair
    | .dilations => asPair
    | .padding => asPadding
    | .activation => asActivation

/-- Reads a convolution. -/
def asConvolution (j : Json) : Decoded Convolution := do
  let got ← convolutionRecord.read j
  return {
    filterShape := ← required (got .filterShape)
    filter := ← required (got .filter)
    bias := (got .bias).getD none
    strides := (got .strides).getD (1, 1)
    dilations := (got .dilations).getD (1, 1)
    padding := ← required (got .padding)
    activation := (got .activation).getD .none }

/-- The record of an operation with a single field. -/
def soleRecord {α : Type} (name : String) (decode : Json → Decoded α) : Record Unit where
  order := [()]
  name _ := name
  data _ := α
  decode _ := decode

/-- Reads the single field of an operation. -/
def asSole {α : Type} (name : String) (decode : Json → Decoded α) (j : Json) : Decoded α := do
  required ((← (soleRecord name decode).read j) ())

/-- The kind of an operation and the value without it: the one member `op` of an object, or
the first item of an array. -/
def splitKind : Json → Decoded (String × Json)
  | .object members =>
    match members.filter fun m => m.1 == .read "op" with
    | [(_, kind)] => do
      return (← asText kind, .object (members.filter fun m => m.1 != .read "op"))
    | _ => malformed
  | .array (kind :: items) => do return (← asText kind, .array items)
  | _ => malformed

/-- Reads an operation that stands inside so many containers. -/
def asOp (depth : Nat) (j : Json) : Decoded Op := do
  if ¬ j.isKept (deepest - depth) then malformed
  let (kind, content) ← splitKind j
  if kind = "conv2d" then return .conv (← asConvolution content)
  else if kind = "depthwise_conv2d" then return .depthwise (← asConvolution content)
  else if kind = "bias_add" then return .addBias (← asSole "bias" (asList asSingle) content)
  else if kind = "activation" then return .activate (← asSole "kind" asActivation content)
  else if kind = "reshape" then return .reshape (← asSole "shape" (asList asDimension) content)
  else malformed

/-- Reads an element type by name. A text that names none is refused by that name. -/
def asElementType (j : Json) : Decoded ElementType := do
  let name ← asText j
  match ElementType.parse? name with
  | some kind => return kind
  | none => .error (.refused ("unsupported input dtype '" ++ name ++ "'"))

/-- The fields of a signature. -/
inductive SignatureField where
  /-- The dimensions. -/
  | shape
  /-- The element type. -/
  | dtype
  deriving DecidableEq

/-- The record of a signature. -/
def signatureRecord : Record SignatureField where
  order := [.shape, .dtype]
  name
    | .shape => "shape"
    | .dtype => "dtype"
  data
    | .shape => Shape
    | .dtype => ElementType
  decode
    | .shape => asList asDimension
    | .dtype => asElementType

/-- Reads a signature; the element type is single precision unless it is given. -/
def asSignature (j : Json) : Decoded Signature := do
  let got ← signatureRecord.read j
  return ⟨← required (got .shape), (got .dtype).getD .f32⟩

/-- The fields of a model. -/
inductive ModelField where
  /-- The version of the document. -/
  | version
  /-- The signature. -/
  | input
  /-- The operations. -/
  | ops
  deriving DecidableEq

/-- The record of a model that stands inside so many containers. -/
def modelRecord (depth : Nat) : Record ModelField where
  order := [.version, .input, .ops]
  name
    | .version => "schema_version"
    | .input => "input"
    | .ops => "ops"
  data
    | .version => Nat
    | .input => Signature
    | .ops => List Op
  decode
    | .version => asNat 256
    | .input => asSignature
    | .ops => asList (asOp (depth + 2))

/-- Reads a model that stands inside so many containers; the version is one unless given. -/
def asModel (depth : Nat) (j : Json) : Decoded Model := do
  let got ← (modelRecord depth).read j
  let version : Option Nat := got .version
  return ⟨version.getD 1, ← required (got .input), ← required (got .ops)⟩

/-- Reads a model from a document. -/
def Model.ofDocument (d : Document) : Except ModelError Model :=
  (d.decode (asModel 0)).mapError fun fault => .decode fault.message

/-- Reads a model from bytes. -/
def Model.ofBytes (bytes : Text.Bytes) : Except ModelError Model := ofDocument (readBytes bytes)

/-- A model as staging needs it. -/
def Model.source (m : Model) : ModelSource where
  signature := m.input
  format := .graph
  serialized := .ok m.bytes

end NetTrial.Graph
