import NetTrial.Dataset.Format
/-!
# Options of the tools

Compiler and runtime are given their options as argument lists, and a case names its options
the same way. A flag with a value takes the next argument, which must not look like a flag
itself; later flags override earlier ones.
-/

namespace NetTrial

/-- The arithmetic that a model is compiled to. -/
inductive InferenceType where
  /-- Floating point. -/
  | float
  /-- Quantized to bytes. -/
  | uint8
  deriving DecidableEq, Repr

/-- The name of an arithmetic. -/
def InferenceType.name : InferenceType → String
  | .float => "float"
  | .uint8 => "uint8"

/-- Why an argument list is refused. -/
inductive OptionsError where
  /-- No option has this name. -/
  | unknownFlag (flag : String)
  /-- An option lacks its value. -/
  | missingValue (flag : String)
  /-- An option does not take this value. -/
  | invalidValue (flag value : String)
  /-- An argument is no option. -/
  | unexpectedArgument (argument : String)
  deriving DecidableEq, Repr

namespace OptionsError

/-- The stable code of a cause. -/
def reasonCode : OptionsError → String
  | .unknownFlag _ => "runtime_option_unknown"
  | .missingValue _ => "runtime_option_missing_value"
  | .invalidValue .. => "runtime_option_invalid_value"
  | .unexpectedArgument _ => "runtime_option_unexpected_argument"

/-- The text of a cause. -/
def message : OptionsError → String
  | .unknownFlag flag => "unknown option '" ++ flag ++ "'"
  | .missingValue flag => "option '" ++ flag ++ "' requires a value"
  | .invalidValue flag value => "invalid value '" ++ value ++ "' for option '" ++ flag ++ "'"
  | .unexpectedArgument argument => "unexpected positional argument '" ++ argument ++ "'"

end OptionsError

/-- The arithmetic of a name, blanks around it left out. -/
def InferenceType.parse (raw : String) : Except OptionsError InferenceType :=
  let word := Text.trim raw
  if word = "float" then .ok .float
  else if word = "uint8" then .ok .uint8
  else .error (.invalidValue "--inference-type" word)

/-- The cause of an argument that is no known flag. -/
def OptionsError.ofStray (argument : String) : OptionsError :=
  if Text.startsWith "-" argument then .unknownFlag argument else .unexpectedArgument argument

/-- Whether an argument cannot be the value of a flag. -/
def looksLikeFlag (argument : String) : Bool := Text.startsWith "--" argument

/-- The dataset format that a flag is given. -/
def formatOf (flag value : String) : Except OptionsError DatasetFormat :=
  (DatasetFormat.parse value).mapError fun _ => .invalidValue flag value

/-! ## Compiler options -/

/-- The options of a compilation. The paths of model and artifact are not among them. -/
structure CompileOptions where
  /-- The arithmetic. -/
  inferenceType : InferenceType := .float
  /-- The target. -/
  target : String := "cpu"
  /-- The path of the calibration data. -/
  dataset : Option String := none
  /-- The format of the calibration data. -/
  datasetFormat : DatasetFormat := .raw
  /-- Whether a quantized artifact keeps a floating-point input. -/
  useFloatInput : Bool := false
  /-- The format of the model. -/
  inputFormat : String := "ncv-graph"
  deriving DecidableEq, Repr

namespace CompileOptions

/-- Whether the compiler has to be given calibration data. -/
def requiresCalibration (o : CompileOptions) : Bool := o.inferenceType = .uint8

/-- The options with calibration data of a format. -/
def withDataset (o : CompileOptions) (path : String) (format : DatasetFormat) : CompileOptions :=
  { o with dataset := some path, datasetFormat := format }

/-- The options as arguments. -/
def toArgs (o : CompileOptions) : List String :=
  ["-i", o.inputFormat, "-t", o.target, "--inference-type", o.inferenceType.name] ++
    (match o.dataset with
      | some path => ["--dataset", path, "--dataset-format", o.datasetFormat.name]
      | none => []) ++
    (if o.useFloatInput then ["--use-float-input"] else [])

/-- The flags that take a value. -/
inductive Flag where
  /-- The format of the model. -/
  | inputFormat
  /-- The target. -/
  | target
  /-- The arithmetic. -/
  | inferenceType
  /-- The calibration data. -/
  | dataset
  /-- The format of the calibration data. -/
  | datasetFormat
  deriving DecidableEq, Repr

/-- The flag of a spelling. -/
def Flag.ofSpelling? (s : String) : Option Flag :=
  if s = "-i" ∨ s = "--input-format" then some .inputFormat
  else if s = "-t" ∨ s = "--target" then some .target
  else if s = "--inference-type" then some .inferenceType
  else if s = "--dataset" then some .dataset
  else if s = "--dataset-format" then some .datasetFormat
  else none

/-- The options with the value of one flag. -/
def set (o : CompileOptions) (flag : Flag) (spelled value : String) :
    Except OptionsError CompileOptions :=
  match flag with
  | .inputFormat => .ok { o with inputFormat := value }
  | .target => .ok { o with target := value }
  | .inferenceType => do return { o with inferenceType := ← InferenceType.parse value }
  | .dataset => .ok { o with dataset := some value }
  | .datasetFormat => do return { o with datasetFormat := ← formatOf spelled value }

/-- The options after an argument list has been read from left to right. -/
def readArgs (o : CompileOptions) : List String → Except OptionsError CompileOptions
  | [] => .ok o
  | arg :: rest =>
    if arg = "--use-float-input" then readArgs { o with useFloatInput := true } rest
    else
      match Flag.ofSpelling? arg, rest with
      | none, _ => .error (.ofStray arg)
      | some _, [] => .error (.missingValue arg)
      | some flag, value :: rest =>
        if looksLikeFlag value then .error (.missingValue arg)
        else
          match o.set flag arg value with
          | .error e => .error e
          | .ok o => readArgs o rest

/-- The options that an argument list names, over the defaults. -/
def ofArgs (args : List String) : Except OptionsError CompileOptions := readArgs {} args

end CompileOptions

/-! ## Runtime options -/

/-- The options of an inference. -/
structure InferOptions where
  /-- The format of the tensor files. -/
  datasetFormat : DatasetFormat := .raw
  deriving DecidableEq, Repr

namespace InferOptions

/-- The options as arguments. -/
def toArgs (o : InferOptions) : List String := ["--dataset-format", o.datasetFormat.name]

/-- The options after an argument list has been read from left to right. -/
def readArgs (o : InferOptions) : List String → Except OptionsError InferOptions
  | [] => .ok o
  | [arg] =>
    if arg = "--dataset-format" then .error (.missingValue arg) else .error (.ofStray arg)
  | arg :: value :: rest =>
    if arg = "--dataset-format" then
      if looksLikeFlag value then .error (.missingValue arg)
      else
        match formatOf arg value with
        | .error e => .error e
        | .ok format => readArgs { o with datasetFormat := format } rest
    else .error (.ofStray arg)

/-- The options that an argument list names, over the defaults. -/
def ofArgs (args : List String) : Except OptionsError InferOptions := readArgs {} args

end InferOptions

end NetTrial
