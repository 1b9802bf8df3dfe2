import NetTrial.Dataset.Npy
/-!
# Graph models

A graph model has one input of fixed shape and element type and a chain of operations that
are evaluated with the channels last. What stages a model only needs its signature, its
format and its serialized bytes; a model of another front end offers the same three.
-/

namespace NetTrial

open Number

/-- The shape and element type that a model takes. -/
structure Signature where
  /-- The dimensions. -/
  shape : Shape
  /-- The element type. -/
  kind : ElementType
  deriving DecidableEq, Repr

namespace Signature

/-- The signature of a tensor. -/
def ofTensor (t : Tensor) : Signature := ⟨t.shape, t.elementType⟩

/-- A signature as messages show it. -/
def text (s : Signature) : String := listText s.shape ++ "/" ++ s.kind.name

end Signature

/-- A serialization format: what the compiler calls it, and the extension of its files. -/
structure ModelFormat where
  /-- The name that the compiler is given. -/
  name : String
  /-- The file extension. -/
  extension : String
  deriving DecidableEq, Repr

/-- The format of graph models. -/
def ModelFormat.graph : ModelFormat := ⟨"ncv-graph", "json"⟩

namespace Graph

/-- How a convolution treats the rim of its input. -/
inductive Padding where
  /-- The output keeps the extent of the input, divided by the stride and rounded up. -/
  | same
  /-- Every window lies inside the input. -/
  | valid
  deriving DecidableEq, Repr

/-- The function applied to each output element. -/
inductive Activation where
  /-- The element itself. -/
  | none
  /-- Nothing below zero. -/
  | relu
  /-- Nothing below zero and nothing above six. -/
  | relu6
  deriving DecidableEq, Repr

namespace Activation

/-- Applies an activation. The first bound turns what is no number into zero; the two bounds
together leave it as it is. -/
def apply : Activation → Single → Single
  | .none, x => x
  | .relu, x => if x.isNaN || x.lt .zero then .zero else x
  | .relu6, x => if x.lt .zero then .zero else if Single.six.lt x then .six else x

end Activation

/-- The dimensions of a filter. -/
structure FilterShape where
  /-- Rows. -/
  height : Nat
  /-- Columns. -/
  width : Nat
  /-- Input channels. -/
  inputs : Nat
  /-- Output channels, or outputs for each channel of a depthwise convolution. -/
  outputs : Nat
  deriving DecidableEq, Repr

/-- The dimensions of a filter as a shape. -/
def FilterShape.shape (f : FilterShape) : Shape := [f.height, f.width, f.inputs, f.outputs]

/-- A convolution. Pairs give the vertical value first. -/
structure Convolution where
  /-- The dimensions of the filter. -/
  filterShape : FilterShape
  /-- The weights in row-major order. -/
  filter : List Single
  /-- A number for each output channel, added at the end. -/
  bias : Option (List Single)
  /-- How far apart neighbouring windows start. -/
  strides : Nat × Nat
  /-- How far apart neighbouring taps of a window lie. -/
  dilations : Nat × Nat
  /-- The treatment of the rim. -/
  padding : Padding
  /-- The function applied to each output element. -/
  activation : Activation
  deriving DecidableEq, Repr

/-- An operation of a graph. -/
inductive Op where
  /-- A convolution over all input channels. -/
  | conv (conv : Convolution)
  /-- A convolution of each channel on its own. -/
  | depthwise (conv : Convolution)
  /-- A number for each channel, added to its elements. -/
  | addBias (bias : List Single)
  /-- An activation of every element. -/
  | activate (kind : Activation)
  /-- The same elements under another shape. -/
  | reshape (shape : Shape)
  deriving DecidableEq, Repr

/-- A graph with one input and one output. -/
structure Model where
  /-- The version of the document. -/
  version : Nat
  /-- What the graph takes. -/
  input : Signature
  /-- The operations in order. -/
  ops : List Op
  deriving DecidableEq, Repr

/-! ## Causes of failure -/

/-- Why an axis has no output extent. -/
inductive ExtentFault where
  /-- Kernel, stride or dilation is zero. -/
  | zero
  /-- A position does not fit a word. -/
  | overflow (kernel dilation stride : Nat)
  /-- The window does not fit the input. -/
  | tooSmall (input effective : Nat)
  deriving DecidableEq, Repr

/-- The text of an extent fault. -/
def ExtentFault.message : ExtentFault → String
  | .zero => "kernel, stride and dilation must be > 0"
  | .overflow kernel dilation stride =>
    "kernel " ++ natText kernel ++ " with dilation " ++ natText dilation ++ " and stride " ++
      natText stride ++ " overflows"
  | .tooSmall input effective =>
    "VALID padding needs input extent " ++ natText input ++ " >= effective kernel " ++
      natText effective

/-- Why an operation does not take what reaches it. -/
inductive OpFault where
  /-- The input does not have four axes. -/
  | rank (shape : Shape)
  /-- The filter is made for another number of channels. -/
  | channels (expected actual : Nat)
  /-- The size of the filter does not fit a word. -/
  | filterShape (shape : Shape) (cause : ShapeError)
  /-- The filter holds too few or too many weights. -/
  | filterLength (held : Nat) (shape : Shape) (needed : Nat)
  /-- The number of output channels does not fit a word. -/
  | outputChannels (channels multiplier : Nat)
  /-- The bias of a convolution has another length than its output has channels. -/
  | biasLength (length channels : Nat)
  /-- An axis has no output extent. -/
  | extent (fault : ExtentFault)
  /-- The size of the output does not fit a word. -/
  | outputShape (shape : Shape) (cause : ShapeError)
  /-- The added bias has another length than the last axis. -/
  | addedLength (length channels : Nat)
  /-- The target shape asks for another number of elements. -/
  | reshape (length : Nat) (target : Shape)
  deriving DecidableEq, Repr

/-- The text of an operation fault. -/
def OpFault.message : OpFault → String
  | .rank shape => "convolution expects a rank-4 NHWC input, got " ++ listText shape
  | .channels expected actual =>
    "filter expects " ++ natText expected ++ " input channels but input has " ++ natText actual
  | .filterShape shape cause => "filter shape " ++ listText shape ++ ": " ++ cause.message
  | .filterLength held shape needed =>
    "filter holds " ++ natText held ++ " values but shape " ++ listText shape ++ " needs " ++
      natText needed
  | .outputChannels inputs multiplier =>
    natText inputs ++ " channels x multiplier " ++ natText multiplier ++ " overflows"
  | .biasLength length outputs =>
    "bias length " ++ natText length ++ " does not match " ++ natText outputs ++
      " output channels"
  | .extent fault => fault.message
  | .outputShape shape cause => "output " ++ listText shape ++ ": " ++ cause.message
  | .addedLength length last =>
    "bias length " ++ natText length ++ " does not match " ++ natText last ++ " channels"
  | .reshape length target =>
    "cannot reshape " ++ natText length ++ " elements into " ++ listText target

end Graph

/-- Why a model cannot be written, read or evaluated. -/
inductive ModelError where
  /-- The model has no serialized form. -/
  | encode (detail : String)
  /-- The serialized form is no model. -/
  | decode (detail : String)
  /-- The input is not the one that the model takes. -/
  | signature (expected actual : Signature)
  /-- An operation does not take what reaches it. -/
  | op (index : Nat) (fault : Graph.OpFault)
  /-- A shape is at fault. -/
  | shape (cause : ShapeError)
  deriving DecidableEq, Repr

namespace ModelError

/-- The stable code of a cause. -/
def reasonCode : ModelError → String
  | .encode _ => "interp_model_encode_failed"
  | .decode _ => "interp_model_decode_failed"
  | .signature .. => "interp_input_signature_mismatch"
  | .op .. => "interp_op_contract_violation"
  | .shape _ => "interp_shape_contract_violation"

/-- The text of a cause. -/
def message : ModelError → String
  | .encode detail => "model serialization failed: " ++ detail
  | .decode detail => "model deserialization failed: " ++ detail
  | .signature expected actual =>
    "input signature mismatch expected=" ++ expected.text ++ " actual=" ++ actual.text
  | .op index fault => "op #" ++ natText index ++ ": " ++ fault.message
  | .shape cause => "shape error: " ++ cause.message

end ModelError

/-- What staging needs of a model. -/
structure ModelSource where
  /-- What the model takes. -/
  signature : Signature
  /-- The serialization format. -/
  format : ModelFormat
  /-- The serialized bytes, if the model has any. -/
  serialized : Except ModelError Text.Bytes

end NetTrial
