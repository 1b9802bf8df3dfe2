import NetTrial.Staging.Manifest
import NetTrial.Graph.Model
import NetTrial.Tool.Launch
/-!
# Why a trial fails

A trial stages files, launches tools and compares tensors. Each step that fails names one
cause. A cause is data; its stable code and its text are read off it, so that nothing
depends on how a cause is worded.
-/

namespace NetTrial

open Number

/-- Why a file cannot be staged. -/
inductive StagingFault where
  /-- The operating system refuses. -/
  | os (cause : OsError)
  /-- The tensor has no file of the format. -/
  | dataset (cause : DatasetError)
  deriving DecidableEq, Repr

/-- The text of a staging fault. -/
def StagingFault.message : StagingFault → String
  | .os cause => cause.message
  | .dataset cause => cause.message

/-- What is missing. -/
inductive Lack where
  /-- A file that the manifest or the caller names. -/
  | file
  /-- The file of the fixtures. -/
  | fixtureFile
  /-- The record of a tensor. -/
  | tensor (case : String) (role : Role)
  /-- The record of the model. -/
  | model
  /-- The file of the recorded model. -/
  | modelFile
  /-- Any input, when a compilation is asked for. -/
  | anyInput
  /-- The artifact, after the compiler reported success. -/
  | writtenArtifact
  /-- The artifact, when an inference is asked for. -/
  | artifact
  /-- The candidate, after the runtime reported success. -/
  | writtenCandidate
  deriving DecidableEq, Repr

/-- The text of what is missing. -/
def Lack.message : Lack → String
  | .file => "file does not exist"
  | .fixtureFile => "fixture file does not exist"
  | .tensor case role => "no " ++ role.stem ++ " tensor staged for case '" ++ case ++ "'"
  | .model => "no model has been staged"
  | .modelFile => "staged model file was removed"
  | .anyInput => "no input tensor staged before compilation"
  | .writtenArtifact => "compiler exited 0 without writing the compiled artifact"
  | .artifact => "no compiled artifact; compile must succeed before inference"
  | .writtenCandidate => "runtime exited 0 without writing the candidate output"

/-- Why the reference output cannot be computed. -/
inductive ReferenceFault where
  /-- The interpreter refuses. -/
  | interpreter (name : String) (cause : ModelError)
  /-- The input cannot be brought into the order of axes of the interpreter. -/
  | inputOrder (cause : ShapeError)
  /-- The output cannot be brought into the order of axes of the runtime. -/
  | outputOrder (cause : ShapeError)
  deriving DecidableEq, Repr

/-- The text of a reference fault. -/
def ReferenceFault.message : ReferenceFault → String
  | .interpreter name cause => name ++ " [" ++ cause.reasonCode ++ "]: " ++ cause.message
  | .inputOrder cause => "input layout conversion: " ++ cause.message
  | .outputOrder cause => "output layout conversion: " ++ cause.message

/-- Why a staged document or tensor cannot be read. -/
inductive DecodeFault where
  /-- The manifest is not the document it should be. -/
  | document (cause : Json.Fault)
  /-- The tensor file is refused. -/
  | dataset (cause : DatasetError)
  /-- No element type has this name. -/
  | elementType (name : String)
  deriving DecidableEq, Repr

/-- The text of a decode fault. -/
def DecodeFault.message : DecodeFault → String
  | .document cause => cause.message
  | .dataset cause => cause.message
  | .elementType name => "unknown element type '" ++ name ++ "'"

/-- A tool run that did not give what it should. -/
structure FailedRun where
  /-- The command in one line. -/
  command : String
  /-- How the run ended. -/
  status : String
  /-- What was written to standard output. -/
  stdout : String
  /-- What was written to standard error. -/
  stderr : String
  deriving DecidableEq, Repr

namespace FailedRun

/-- The record of a run that came to an end. -/
def of (r : Request) (o : Outcome) : FailedRun := ⟨r.commandLine, o.status, o.stdout, o.stderr⟩

/-- The record of a run that was held back. -/
def heldBack (r : Request) (reason : String) : FailedRun :=
  ⟨r.commandLine, "not_launched", "", reason⟩

/-- A run in one line, its output without the blanks around it. -/
def text (f : FailedRun) : String :=
  "command=\x60" ++ f.command ++ "\x60 status=" ++ f.status ++ " stdout=" ++
    Text.trim f.stdout ++ " stderr=" ++ Text.trim f.stderr

end FailedRun

/-- The first element outside the tolerance, and the worst error of all. -/
structure Violation where
  /-- The case. -/
  case : String
  /-- The tolerance. -/
  tolerance : Double
  /-- The flat index of the element. -/
  flatIndex : Nat
  /-- The coordinates of the element. -/
  index : List Nat
  /-- The expected element. -/
  expected : Double
  /-- The candidate element. -/
  actual : Double
  /-- The error of the element. -/
  error : Double
  /-- The worst error of all elements. -/
  worst : Double
  deriving DecidableEq, Repr

/-- The text of a violation. -/
def Violation.text (v : Violation) : String :=
  v.case ++ ": not close within tolerance=" ++ v.tolerance.text ++ " at flat index " ++
    natText v.flatIndex ++ " " ++ listText v.index ++ ": expected=" ++ v.expected.text ++
    " actual=" ++ v.actual.text ++ " abs_error=" ++ v.error.text ++ " (max_abs_error=" ++
    v.worst.text ++ ")"

/-- What was asked for in a way that cannot be carried out. -/
inductive ConfigFault where
  /-- A case name does not make a file name. -/
  | caseName (case : String)
  /-- A case id does not make a directory name. -/
  | caseId (id : String)
  /-- The tolerance is negative or not finite. -/
  | tolerance (case : String) (tolerance : Double)
  /-- The compiler is asked for another format than the model is staged in. -/
  | modelFormat (asked staged : String)
  /-- A quantized artifact would be fed an input that is not quantized. -/
  | floatInput (case file dtype : String)
  /-- The runtime is asked for another format than the tensors are staged in. -/
  | datasetFormat (asked staged : DatasetFormat)
  /-- The input is not the one that the model takes. -/
  | signature (case : String) (given : Signature) (givenOrder : AxisOrder) (model : Signature)
      (modelOrder : AxisOrder)
  /-- The compiler options of a fixture are refused. -/
  | compileArgs (id : String) (cause : OptionsError)
  /-- The runtime options of a fixture are refused. -/
  | inferArgs (id : String) (cause : OptionsError)
  /-- The input values of a fixture do not have its input shape. -/
  | input (id : String) (cause : ShapeError)
  /-- The fixture file is not the document it should be. -/
  | fixtures (path : String) (cause : Json.Fault)
  deriving DecidableEq, Repr

/-- The text of a configuration fault. -/
def ConfigFault.message : ConfigFault → String
  | .caseName case => "case name '" ++ case ++ "' is not a plain file stem"
  | .caseId id => "case id '" ++ id ++ "' cannot name a directory"
  | .tolerance case limit => case ++ ": tolerance must be finite and >= 0, got " ++ limit.text
  | .modelFormat asked staged =>
    "compile input format '" ++ asked ++ "' does not match staged model format '" ++ staged ++ "'"
  | .floatInput case file dtype =>
    case ++ ": uint8 compilation without --use-float-input expects uint8 input, but '" ++ file ++
      "' is " ++ dtype
  | .datasetFormat asked staged =>
    "inference dataset format '" ++ asked.name ++ "' does not match staged format '" ++
      staged.name ++ "'"
  | .signature case given givenOrder model modelOrder =>
    case ++ ": input " ++ given.text ++ " in " ++ givenOrder.name ++
      " does not match model signature " ++ model.text ++ " in " ++ modelOrder.name
  | .compileArgs id cause =>
    id ++ ": compile_args [" ++ cause.reasonCode ++ "] " ++ cause.message
  | .inferArgs id cause => id ++ ": infer_args [" ++ cause.reasonCode ++ "] " ++ cause.message
  | .input id cause => id ++ ": input " ++ cause.message
  | .fixtures path cause => "invalid fixture json " ++ path ++ ": " ++ cause.message

/-- Why a step of a trial fails. -/
inductive Failure where
  /-- A file cannot be staged. -/
  | staging (path : String) (fault : StagingFault)
  /-- Something that should be there is not. -/
  | missing (path : String) (lack : Lack)
  /-- The model has no serialized form. -/
  | modelInvalid (cause : ModelError)
  /-- The reference output cannot be computed. -/
  | reference (fault : ReferenceFault)
  /-- A tool never ran. -/
  | launch (tool : ToolKind) (cause : LaunchError)
  /-- The compiler failed, or was held back. -/
  | compile (run : FailedRun)
  /-- The runtime failed. -/
  | infer (run : FailedRun)
  /-- A staged file cannot be read. -/
  | decode (path : String) (fault : DecodeFault)
  /-- Expected and candidate tensor have different shapes. -/
  | shapeMismatch (case : String) (expected actual : Shape)
  /-- An element is outside the tolerance. -/
  | tolerance (violation : Violation)
  /-- What was asked for cannot be carried out. -/
  | config (fault : ConfigFault)
  deriving DecidableEq, Repr

namespace Failure

/-- The stable code of a cause. -/
def reasonCode : Failure → String
  | .staging .. => "harness_staging_io_failed"
  | .missing .. => "harness_artifact_missing"
  | .modelInvalid _ => "harness_model_invalid"
  | .reference _ => "harness_reference_failed"
  | .launch .. => "harness_launch_failed"
  | .compile _ => "harness_compile_failed"
  | .infer _ => "harness_infer_failed"
  | .decode .. => "harness_tensor_decode_failed"
  | .shapeMismatch .. => "harness_shape_mismatch"
  | .tolerance _ => "harness_tolerance_exceeded"
  | .config _ => "harness_config_invalid"

/-- The text of a cause. -/
def message : Failure → String
  | .staging path fault => "staging failed for " ++ path ++ ": " ++ fault.message
  | .missing path lack => "missing artifact " ++ path ++ ": " ++ lack.message
  | .modelInvalid cause => "model could not be serialized: " ++ cause.message
  | .reference fault => "reference evaluation failed: " ++ fault.message
  | .launch tool cause => tool.name ++ " could not be launched: " ++ cause.message
  | .compile run => "compilation failed " ++ run.text
  | .infer run => "inference failed " ++ run.text
  | .decode path fault => "failed decoding " ++ path ++ ": " ++ fault.message
  | .shapeMismatch case expected actual =>
    case ++ ": shape mismatch expected=" ++ listText expected ++ " candidate=" ++
      listText actual
  | .tolerance violation => violation.text
  | .config fault => "invalid configuration: " ++ fault.message

/-- A refusal of the operating system at a path. -/
def os (path : String) (cause : OsError) : Failure := .staging path (.os cause)

end Failure

end NetTrial
