import NetTrial.Staging.Area
import NetTrial.Graph.Document
/-!
# The reference output

What a case expects is computed by an interpreter of serialized models. Interpreter and
runtime may order the axes of a tensor differently; the input is brought into the order of
the interpreter, the output back into that of the runtime.
-/

namespace NetTrial

open Number Digest

/-- An interpreter of serialized models. -/
structure Interpreter where
  /-- The name. -/
  name : String
  /-- The order of axes it works in. -/
  order : AxisOrder
  /-- The output of a serialized model on an input. -/
  invoke : Text.Bytes → Tensor → Except ModelError Tensor

/-- The interpreter of graph models. -/
def Interpreter.graph : Interpreter where
  name := "ncv-graph-interpreter"
  order := .nhwc
  invoke serialized input := do (← Graph.Model.ofBytes serialized).evaluate input

/-- An interpreter together with the order of axes that the runtime works in. -/
structure Evaluator where
  /-- The interpreter. -/
  interpreter : Interpreter
  /-- The order of axes of the runtime. -/
  runtimeOrder : AxisOrder

namespace Evaluator

/-- The output of a serialized model, input and output in the order of the runtime. An
output that does not have four axes has no channel axis to move and is left as it is. -/
def evaluate (e : Evaluator) (serialized : Text.Bytes) (input : Tensor) :
    Except Failure Tensor := do
  let converted ← (input.convert e.runtimeOrder e.interpreter.order).mapError fun cause =>
    .reference (.inputOrder cause)
  let output ← (e.interpreter.invoke serialized converted).mapError fun cause =>
    .reference (.interpreter e.interpreter.name cause)
  if output.shape.length ≠ 4 then return output
  else
    (output.convert e.interpreter.order e.runtimeOrder).mapError fun cause =>
      .reference (.outputOrder cause)

/-- Whether an input given in the order of the runtime is what a model takes. -/
def accepts (e : Evaluator) (model : Signature) (input : Tensor) : Bool :=
  match input.shape.permuted (e.runtimeOrder.permutationTo e.interpreter.order) with
  | .ok shape => shape == model.shape && input.elementType == model.kind
  | .error _ => false

/-- Stages an input, computes the reference output and stages it as what is expected. -/
def stageExpected (e : Evaluator) (a : Area) (j : Journal) (case : String) (source : ModelSource)
    (input : Tensor) : Action Files Tensor := do
  if !e.accepts source.signature input then
    throw (.config (.signature case (.ofTensor input) e.runtimeOrder source.signature
      e.interpreter.order))
  let _ ← a.saveTensor j case .input input
  let expected ← j.logged case "reference" do
    Step.noteArtifact (a.tensorPath case .input)
    let serialized ← Step.act (.settle (source.serialized.mapError .modelInvalid))
    Step.note fun n => { n with inputDigest := sha256Hex input.elements.toBytes }
    let expected ← Step.act (.settle (e.evaluate serialized input))
    Step.note fun n => { n with
      outputDigest := sha256Hex expected.elements.toBytes
      detail := e.interpreter.name ++ " shape=" ++ listText expected.shape }
    return expected
  let _ ← a.saveTensor j case .expected expected
  return expected

end Evaluator

end NetTrial
