import NetTrial.Staging.Area
import NetTrial.Graph.Document
/-!
# Fixtures

A fixture declares one trial: a graph model, an input, the options of the tools and how
close the candidate has to come. Shape and values of the input are given with the channels
first, while the model takes them last. Fixtures are kept in one JSON document.
-/

namespace NetTrial

open Number Json Text

/-- A declared trial. -/
structure Fixture where
  /-- The id, which names the directory of the trial. -/
  id : String
  /-- The case, which names its tensors. -/
  case : String
  /-- The model. -/
  model : Graph.Model
  /-- The shape of the input. -/
  inputShape : Shape
  /-- The values of the input; when there are none, they count up from one. -/
  inputValues : Option (List Single)
  /-- The options of the compiler. -/
  compileArgs : List String
  /-- The options of the runtime. -/
  inferArgs : List String
  /-- How far an element may be off. -/
  tolerance : Double
  /-- Whether the candidate should differ from what is expected, as that of a quantized
  artifact does. -/
  expectInexact : Bool
  deriving DecidableEq, Repr

namespace Fixture

/-- The compiler options. -/
def compileOptions (f : Fixture) : Except Failure CompileOptions :=
  (CompileOptions.ofArgs f.compileArgs).mapError fun cause => .config (.compileArgs f.id cause)

/-- The runtime options. -/
def inferOptions (f : Fixture) : Except Failure InferOptions :=
  (InferOptions.ofArgs f.inferArgs).mapError fun cause => .config (.inferArgs f.id cause)

/-- The input. -/
def input (f : Fixture) : Except Failure Tensor :=
  (match f.inputValues with
    | some values => Tensor.ofElements f.inputShape (.f32 values)
    | none => Tensor.arange f.inputShape (Single.ofNat 1)).mapError fun cause =>
  .config (.input f.id cause)

/-- Refuses an id that does not make a directory name. -/
def checkId (f : Fixture) : Except Failure Unit :=
  if Area.isUnfitName f.id then .error (.config (.caseId f.id)) else .ok ()

/-! ## The document -/

/-- The fields of a fixture. -/
inductive Field where
  /-- The id. -/
  | id
  /-- The case. -/
  | case
  /-- The model. -/
  | model
  /-- The shape of the input. -/
  | inputShape
  /-- The values of the input. -/
  | inputValues
  /-- The options of the compiler. -/
  | compileArgs
  /-- The options of the runtime. -/
  | inferArgs
  /-- How far an element may be off. -/
  | tolerance
  /-- Whether the candidate should differ. -/
  | expectInexact
  deriving DecidableEq

/-- A model in a document stands below the list of fixtures and the fixture. -/
def modelDepth : Nat := 2

/-- The record of a fixture. -/
def fieldRecord : Record Field where
  order := [.id, .case, .model, .inputShape, .inputValues, .compileArgs, .inferArgs, .tolerance,
    .expectInexact]
  name
    | .id => "id"
    | .case => "case_name"
    | .model => "model"
    | .inputShape => "input_shape"
    | .inputValues => "input_values"
    | .compileArgs => "compile_args"
    | .inferArgs => "infer_args"
    | .tolerance => "tolerance"
    | .expectInexact => "expect_failure_at_zero_tolerance"
  data
    | .id => String
    | .case => String
    | .model => Graph.Model
    | .inputShape => Shape
    | .inputValues => Option (List Single)
    | .compileArgs => List String
    | .inferArgs => List String
    | .tolerance => Double
    | .expectInexact => Bool
  decode
    | .id => asText
    | .case => asText
    | .model => Graph.asModel modelDepth
    | .inputShape => asList (asNat wordLimit)
    | .inputValues => asOptional (asList asSingle)
    | .compileArgs => asList asText
    | .inferArgs => asList asText
    | .tolerance => asDouble
    | .expectInexact => asBool

/-- The case of a fixture that names none. -/
def defaultCase : String := "test"

/-- Reads a fixture. Only the id, the model, the shape of the input and the tolerance have to
be given. -/
def asFixture (j : Json) : Decoded Fixture := do
  let got ← fieldRecord.read j
  return {
    id := ← required (got .id)
    case := (got .case).getD defaultCase
    model := ← required (got .model)
    inputShape := ← required (got .inputShape)
    inputValues := (got .inputValues).getD none
    compileArgs := (got .compileArgs).getD []
    inferArgs := (got .inferArgs).getD []
    tolerance := ← required (got .tolerance)
    expectInexact := (got .expectInexact).getD false }

/-- Reads the fixtures of a document. -/
def listOfChars (cs : List Char) : Decoded (List Fixture) :=
  (readChars cs).decode (asList asFixture)

/-- The fixtures of a file. -/
def load (files : Files) (path : String) : Except Failure (List Fixture) :=
  match files.readChars path with
  | .error .notFound => .error (.missing path .fixtureFile)
  | .error cause => .error (.os path cause)
  | .ok cs => (listOfChars cs).mapError fun cause => .config (.fixtures path cause)

end Fixture

end NetTrial
