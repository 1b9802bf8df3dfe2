import NetTrial.Graph.Model
/-!
# Convolution

The output extent of an axis follows from input extent, kernel, stride, dilation and the
treatment of the rim. The convolution itself is one function of the output position: the
taps of its window that lie inside the input, in lexicographic order, multiplied and added
from zero on, then the bias, then the activation.
-/

namespace NetTrial.Graph

/-- An output extent and the padding in front of the input. -/
structure Extent where
  /-- The number of output positions. -/
  out : Nat
  /-- The padding in front. -/
  pad : Nat
  deriving DecidableEq, Repr

/-- The quotient rounded up. -/
def divideUp (a b : Nat) : Nat := (a + b - 1) / b

/-- The extent of a window of `kernel` taps that lie `dilation` apart. -/
def effectiveKernel? (kernel dilation : Nat) : Option Nat :=
  match checkedMul (kernel - 1) dilation with
  | some reach => checkedAdd reach 1
  | none => none

/-- The input extent that `out` windows cover. -/
def coveredExtent? (out stride effective : Nat) : Option Nat :=
  match checkedMul (out - 1) stride with
  | some reach => checkedAdd reach effective
  | none => none

/-- The output extent of an axis. With rim `same` an odd element of padding goes behind the
input. -/
def outputExtent (input kernel stride dilation : Nat) (padding : Padding) :
    Except ExtentFault Extent :=
  if kernel = 0 ∨ stride = 0 ∨ dilation = 0 then .error .zero
  else
    match effectiveKernel? kernel dilation with
    | none => .error (.overflow kernel dilation stride)
    | some effective =>
      match padding with
      | .same =>
        let out := divideUp input stride
        match coveredExtent? out stride effective with
        | none => .error (.overflow kernel dilation stride)
        | some covered => .ok ⟨out, (covered - input) / 2⟩
      | .valid =>
        if input < effective then .error (.tooSmall input effective)
        else .ok ⟨(input - effective) / stride + 1, 0⟩

/-- The input coordinate of a tap, if it lies inside the input. -/
def tapCoordinate? (position stride tap dilation pad extent : Nat) : Option Nat :=
  let reached := position * stride + tap * dilation
  if pad ≤ reached ∧ reached - pad < extent then some (reached - pad) else none

namespace Convolution

/-- What is known of a convolution once its input shape is accepted. -/
structure Plan where
  /-- The number of inputs evaluated at once. -/
  batch : Nat
  /-- Input rows. -/
  height : Nat
  /-- Input columns. -/
  width : Nat
  /-- Input channels. -/
  channels : Nat
  /-- The vertical output extent. -/
  rows : Extent
  /-- The horizontal output extent. -/
  columns : Extent
  /-- Output channels. -/
  outputs : Nat
  deriving DecidableEq, Repr

/-- The output shape of a plan. -/
def Plan.shape (p : Plan) : Shape := [p.batch, p.rows.out, p.columns.out, p.outputs]

/-- The number of output channels. -/
def outputChannels (c : Convolution) (depthwise : Bool) (channels : Nat) : Except OpFault Nat :=
  if depthwise then
    match checkedMul channels c.filterShape.outputs with
    | some n => .ok n
    | none => .error (.outputChannels channels c.filterShape.outputs)
  else .ok c.filterShape.outputs

/-- Tests that a bias has an element for each output channel. -/
def checkBias (bias : Option (List Single)) (channels : Nat) : Except OpFault Unit :=
  match bias with
  | some values =>
    if values.length = channels then .ok () else .error (.biasLength values.length channels)
  | none => .ok ()

/-- Tests a convolution against the shape that reaches it. -/
def plan (c : Convolution) (depthwise : Bool) (shape : Shape) : Except OpFault Plan :=
  match shape with
  | [batch, height, width, channels] => do
    if c.filterShape.inputs ≠ channels then .error (.channels c.filterShape.inputs channels)
    let needed ← c.filterShape.shape.elementCount.mapError (.filterShape c.filterShape.shape)
    if c.filter.length ≠ needed then
      .error (.filterLength c.filter.length c.filterShape.shape needed)
    let outputs ← c.outputChannels depthwise channels
    checkBias c.bias outputs
    let rows ← (outputExtent height c.filterShape.height c.strides.1 c.dilations.1
      c.padding).mapError .extent
    let columns ← (outputExtent width c.filterShape.width c.strides.2 c.dilations.2
      c.padding).mapError .extent
    let found : Plan := ⟨batch, height, width, channels, rows, columns, outputs⟩
    let _ ← found.shape.elementCount.mapError (.outputShape found.shape)
    return found
  | _ => .error (.rank shape)

/-- A tap inside the input: its place in the filter and the input coordinates it meets. -/
structure Tap where
  /-- The filter row. -/
  ky : Nat
  /-- The filter column. -/
  kx : Nat
  /-- The input row. -/
  iy : Nat
  /-- The input column. -/
  ix : Nat
  deriving DecidableEq, Repr

/-- The taps of an output position that lie inside the input, in lexicographic order. -/
def taps (c : Convolution) (p : Plan) (oy ox : Nat) : List Tap :=
  (List.range c.filterShape.height).flatMap fun ky =>
    match tapCoordinate? oy c.strides.1 ky c.dilations.1 p.rows.pad p.height with
    | none => []
    | some iy =>
      (List.range c.filterShape.width).filterMap fun kx =>
        (tapCoordinate? ox c.strides.2 kx c.dilations.2 p.columns.pad p.width).map
          fun ix => ⟨ky, kx, iy, ix⟩

/-- The input channels that an output channel is computed from, each with the last index of
its weight. -/
def channelsOf (c : Convolution) (depthwise : Bool) (p : Plan) (oc : Nat) : List (Nat × Nat) :=
  if depthwise then [(oc / c.filterShape.outputs, oc % c.filterShape.outputs)]
  else (List.range p.channels).map fun ic => (ic, oc)

/-- The products of an output element in the order in which they are added. -/
def products (c : Convolution) (depthwise : Bool) (p : Plan) (input filter : Array Single)
    (n oy ox oc : Nat) : List Single :=
  (c.taps p oy ox).flatMap fun t =>
    (c.channelsOf depthwise p oc).map fun (ic, last) =>
      input.getD (((n * p.height + t.iy) * p.width + t.ix) * p.channels + ic) .zero *
        filter.getD (((t.ky * c.filterShape.width + t.kx) * c.filterShape.inputs + ic) *
          c.filterShape.outputs + last) .zero

/-- An output element. -/
def outputAt (c : Convolution) (depthwise : Bool) (p : Plan) (input filter : Array Single)
    (n oy ox oc : Nat) : Single :=
  let sum := (c.products depthwise p input filter n oy ox oc).foldl (· + ·) .zero
  let shifted := match c.bias with
    | some bias => sum + bias.getD oc .zero
    | none => sum
  c.activation.apply shifted

/-- The output of a planned convolution in row-major order. -/
def outputs (c : Convolution) (depthwise : Bool) (p : Plan) (input : List Single) : List Single :=
  let inputArray := input.toArray
  let filterArray := c.filter.toArray
  (List.range p.shape.size).map fun position =>
    match Shape.coordinates position p.shape with
    | [n, oy, ox, oc] => c.outputAt depthwise p inputArray filterArray n oy ox oc
    | _ => .zero

/-- Convolves values of a shape. -/
def run (c : Convolution) (depthwise : Bool) (shape : Shape) (values : List Single) :
    Except OpFault (Shape × List Single) := do
  let p ← c.plan depthwise shape
  return (p.shape, c.outputs depthwise p values)

end Convolution

end NetTrial.Graph
