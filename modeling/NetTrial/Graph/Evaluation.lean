import NetTrial.Graph.Convolution
/-!
# Evaluating a graph

The operations are applied in order to a shape and its values. The shapes alone decide
whether an operation applies; the first that does not is reported with its index.
-/

namespace NetTrial.Graph

/-- The values that reach an operation, in row-major order. -/
structure Activations where
  /-- The dimensions. -/
  shape : Shape
  /-- The values. -/
  values : List Single
  deriving DecidableEq, Repr

/-- The values with a number for each channel added, the channels being the last axis. -/
def addChannels (bias values : List Single) : List Single :=
  let numbers := bias.toArray
  values.mapIdx fun i v => v + numbers.getD (i % numbers.size) .zero

/-- Applies one operation. -/
def Op.apply (op : Op) (index : Nat) (a : Activations) : Except ModelError Activations :=
  match op with
  | .conv c => do
    let (shape, values) ← (c.run false a.shape a.values).mapError (.op index)
    return ⟨shape, values⟩
  | .depthwise c => do
    let (shape, values) ← (c.run true a.shape a.values).mapError (.op index)
    return ⟨shape, values⟩
  | .addBias bias =>
    let channels := a.shape.getLast?.getD 1
    if bias.length = channels then .ok ⟨a.shape, addChannels bias a.values⟩
    else .error (.op index (.addedLength bias.length channels))
  | .activate kind => .ok ⟨a.shape, a.values.map kind.apply⟩
  | .reshape target => do
    let count ← target.elementCount.mapError .shape
    if count = a.values.length then return ⟨target, a.values⟩
    else .error (.op index (.reshape a.values.length target))

/-- Applies operations in order, the first of them having the given index. -/
def applyAll : (index : Nat) → List Op → Activations → Except ModelError Activations
  | _, [], a => .ok a
  | index, op :: ops, a => do applyAll (index + 1) ops (← op.apply index a)

/-- Evaluates a model on a tensor that matches its signature. -/
def Model.evaluate (m : Model) (input : Tensor) : Except ModelError Tensor := do
  if Signature.ofTensor input ≠ m.input then
    .error (.signature m.input (.ofTensor input))
  let out ← applyAll 0 m.ops ⟨input.shape, input.toSingles⟩
  (Tensor.ofElements out.shape (.f32 out.values)).mapError .shape

end NetTrial.Graph
