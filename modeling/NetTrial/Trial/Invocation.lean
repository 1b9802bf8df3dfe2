import NetTrial.Staging.Area
import NetTrial.Artifact.Summary
/-!
# Compiling and inferring

The compiler turns the staged model into the artifact, the runtime runs the artifact on a
staged input and writes the candidate. Before a launch the output of an earlier one is
removed, so what is there afterwards was written by this launch. A tool that ends well
without its output has failed all the same.
-/

namespace NetTrial

open Number Digest

/-- An artifact that the compiler wrote. -/
structure Compiled where
  /-- The path. -/
  path : String
  /-- The digest. -/
  sha256 : String
  /-- What its header says; none when the header is not understood. -/
  summary : Option Artifact.Summary
  deriving DecidableEq, Repr

/-- Launches a tool. -/
def launchTool {σ : Type} (l : Launcher σ) (r : Request) (note : String) :
    Action (Bench σ) Outcome := fun b =>
  let (result, b) := b.launch l r note
  (result.mapError (.launch r.tool), b)

/-! ## Compiling -/

namespace CompileOptions

/-- Refuses a quantized compilation without calibration data, and data that is not there. -/
def checkCalibration (o : CompileOptions) (files : Files) (r : Request) : Except Failure Unit :=
  match o.dataset with
  | none =>
    if o.requiresCalibration then
      .error (.compile (.heldBack r "inference type uint8 requires a calibration --dataset"))
    else .ok ()
  | some path =>
    if files.pathExists path then .ok ()
    else .error (.compile (.heldBack r ("calibration dataset " ++ path ++ " does not exist")))

/-- Refuses a quantized compilation for inputs that are not quantized, unless the artifact
keeps a floating-point input. -/
def checkInputs (o : CompileOptions) (inputs : List TensorEntry) : Except Failure Unit :=
  if o.inferenceType = .uint8 ∧ o.useFloatInput = false then
    match inputs.find? fun e => e.dtype == ElementType.f32.name with
    | some e => .error (.config (.floatInput e.case e.file e.dtype))
    | none => .ok ()
  else .ok ()

end CompileOptions

/-- What the journal remarks on an artifact. -/
def artifactRemark (kind : InferenceType) : Except Artifact.Fault Artifact.Summary → String
  | .ok s =>
    kind.name ++ " kmodel v" ++ natText s.version ++ " weights=" ++ natText s.weightsBits ++
      "bit layers=" ++ natText s.layers.length ++ " output_bytes=" ++ natText s.mainMemOutputSize
  | .error fault => kind.name ++ " artifact header not inspected: " ++ fault.message

namespace Area

/-- The request for a compilation and the path of the model, once all is in order for it.
An artifact that is there already is removed. -/
def prepareCompile (a : Area) (c : ToolCommand) (o : CompileOptions) :
    Action Files (Request × String) := do
  let (modelPath, modelFormat) ← a.model
  let inputs ← a.stagedInputs
  if inputs.isEmpty then throw (.missing a.root .anyInput)
  if o.inputFormat ≠ modelFormat then throw (.config (.modelFormat o.inputFormat modelFormat))
  let request := c.request .compiler (["compile", modelPath, a.artifactPath] ++ o.toArgs) a.root
  Action.settle (o.checkCalibration (← get) request)
  Action.settle (o.checkInputs inputs)
  removeStale a.artifactPath
  return (request, modelPath)

/-- The artifact that a compilation left. -/
def collectArtifact (a : Area) : Action Files Text.Bytes := do
  if !(← get).isFile a.artifactPath then throw (.missing a.artifactPath .writtenArtifact)
  readExisting a.artifactPath

/-- Compiles the staged model. -/
def compile {σ : Type} (a : Area) (j : Journal) (l : Launcher σ) (c : ToolCommand)
    (o : CompileOptions) : Action (Bench σ) Compiled :=
  j.loggedOnBench "" "compile" do
    let (request, modelPath) ← Step.act (a.prepareCompile c o).onBench
    let model ← Step.act (readExisting modelPath).onBench
    Step.note fun n => { n with inputDigest := sha256Hex model, artifacts := [modelPath] }
    let outcome ← Step.act (launchTool l request "compile")
    if !outcome.success then throw (.compile (.of request outcome))
    let bytes ← Step.act a.collectArtifact.onBench
    let inspected := Artifact.inspect bytes
    let digest := sha256Hex bytes
    Step.note fun n => { n with
      outputDigest := digest
      artifacts := n.artifacts ++ [a.artifactPath]
      detail := artifactRemark o.inferenceType inspected }
    return ⟨a.artifactPath, digest, inspected.toOption⟩

/-! ## Inferring -/

/-- The request for an inference, once all is in order for it. A candidate that is there
already is removed. -/
def prepareInfer (a : Area) (c : ToolCommand) (case : String) (o : InferOptions) :
    Action Files Request := do
  if !(← get).isFile a.artifactPath then throw (.missing a.artifactPath .artifact)
  let input := a.tensorPath case .input
  let candidate := a.tensorPath case .candidate
  if !(← a.hasTensor case .input) then throw (.missing input (.tensor case .input))
  if o.datasetFormat ≠ a.format then throw (.config (.datasetFormat o.datasetFormat a.format))
  removeStale candidate
  return c.request .runtime
    (["infer", a.artifactPath, candidate, "--dataset", input] ++ o.toArgs) a.root

/-- Records the candidate that an inference left. -/
def collectCandidate (a : Area) (case : String) : Action Files TensorEntry := do
  let candidate := a.tensorPath case .candidate
  if !(← get).isFile candidate then throw (.missing candidate .writtenCandidate)
  a.recordExternal case .candidate .f32

/-- Runs the artifact on the staged input of a case and gives the path of the candidate. -/
def infer {σ : Type} (a : Area) (j : Journal) (l : Launcher σ) (c : ToolCommand) (case : String)
    (o : InferOptions) : Action (Bench σ) String :=
  j.loggedOnBench case "infer" do
    let request ← Step.act (a.prepareInfer c case o).onBench
    let path := a.tensorPath case .input
    let input ← Step.act (readExisting path).onBench
    Step.note fun n => { n with inputDigest := sha256Hex input, artifacts := [a.artifactPath, path] }
    let outcome ← Step.act (launchTool l request case)
    if !outcome.success then throw (.infer (.of request outcome))
    let entry ← Step.act (a.collectCandidate case).onBench
    let candidate := a.tensorPath case .candidate
    Step.note fun n => { n with
      outputDigest := entry.sha256
      artifacts := n.artifacts ++ [candidate] }
    return candidate

end Area

end NetTrial
