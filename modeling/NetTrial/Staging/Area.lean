import NetTrial.Journal
import NetTrial.Digest.Sha256
/-!
# The staging area

A staging area is a directory. It holds the serialized model, the compiled artifact, one
file for each staged tensor and the manifest that records them. Everything the pipeline
hands from one step to the next goes through these files; what the manifest names but the
directory no longer holds counts as absent or as missing, depending on who asks.
-/

namespace NetTrial

open Text Digest

/-- A staging area: its directory, and the format that tensors are staged in. -/
structure Area where
  /-- The directory. -/
  root : String
  /-- The format of the tensor files. -/
  format : DatasetFormat
  deriving DecidableEq, Repr

namespace Area

/-! ## Paths -/

/-- The stem of the files of model and artifact. No case may have this name. -/
def modelStem : String := "model"

/-- The path of the compiled artifact. -/
def artifactPath (a : Area) : String := Path.join a.root "model.kmodel"

/-- The path of the manifest. -/
def manifestPath (a : Area) : String := Path.join a.root "manifest.json"

/-- The name of the file of a tensor. -/
def tensorFile (a : Area) (case : String) (role : Role) : String :=
  case ++ "." ++ role.stem ++ "." ++ a.format.extension

/-- The path of the file of a tensor. -/
def tensorPath (a : Area) (case : String) (role : Role) : String :=
  Path.join a.root (a.tensorFile case role)

/-- The name of the file of a model. -/
def modelFile (format : ModelFormat) : String := modelStem ++ "." ++ format.extension

/-- Whether a text names something outside or hidden in a directory, or nothing. -/
def isUnfitName (name : String) : Bool :=
  isBlankText name || name.toList.any (fun c => c == '/' || c == '\\') || startsWith "." name

/-- Refuses a case name that does not make a file name of its own. -/
def checkCase (case : String) : Except Failure Unit :=
  if isUnfitName case || case == modelStem then .error (.config (.caseName case)) else .ok ()

/-! ## Files -/

/-- The bytes of a file that should be there. -/
def readExisting (path : String) : Action Files Bytes := do
  match (← get).read path with
  | .ok bytes => return bytes
  | .error .notFound => throw (.missing path .file)
  | .error cause => throw (.os path cause)

/-- Removes a file that may be there. -/
def removeStale (path : String) : Action Files Unit := do
  match (← get).removeFile path with
  | .ok files => set files
  | .error .notFound => return ()
  | .error cause => throw (.os path cause)

/-- Writes a file of the area, whose directory is made if it is missing. -/
def writeFile (a : Area) (path : String) (bytes : Bytes) : Action Files Unit := do
  Action.attempt a.root (·.makeDirectories a.root)
  Action.edit path (·.write path bytes)

/-- Whether the file of an entry is there. -/
def holds (a : Area) (files : Files) (e : TensorEntry) : Bool :=
  files.isFile (Path.join a.root e.file)

/-! ## The manifest -/

/-- The manifest. An area without one has nothing staged. -/
def readManifest (a : Area) : Action Files Manifest := do
  match (← get).readChars a.manifestPath with
  | .ok cs =>
    match Manifest.ofChars cs with
    | .ok m => return m
    | .error cause => throw (.decode a.manifestPath (.document cause))
  | .error .notFound => return .empty
  | .error cause => throw (.os a.manifestPath cause)

/-- Writes the manifest. -/
def writeManifest (a : Area) (m : Manifest) : Action Files Unit :=
  a.writeFile a.manifestPath m.bytes

/-- Replaces the manifest by a changed one. -/
def updateManifest (a : Area) (change : Manifest → Manifest) : Action Files Unit := do
  a.writeManifest (change (← a.readManifest))

/-! ## Staging -/

/-- Leaves an empty directory at the root, whatever stood there. -/
def reset (a : Area) : Action Files Unit := do
  match (← get).locate a.root with
  | .ok (_, .directory) => Action.attempt a.root (·.removeTree a.root)
  | .ok (_, .file _) => Action.edit a.root (·.removeFile a.root)
  | .error .notFound => pure ()
  | .error cause => throw (.os a.root cause)
  Action.attempt a.root (·.makeDirectories a.root)

/-- Leaves the area empty. -/
def clear (a : Area) (j : Journal) : Action Files Unit :=
  j.logged "" "clear" do
    Step.noteArtifact a.root
    Step.act a.reset

/-- Stages a model and gives its path. -/
def saveModel (a : Area) (j : Journal) (source : ModelSource) : Action Files String :=
  j.logged "" "save_model" do
    let bytes ← Step.act (.settle (source.serialized.mapError .modelInvalid))
    let file := modelFile source.format
    let path := Path.join a.root file
    let digest := sha256Hex bytes
    Step.act do
      a.writeFile path bytes
      a.updateManifest fun m => { m with model := some ⟨file, source.format.name, digest⟩ }
    Step.note fun n => { n with outputDigest := digest, artifacts := [path] }
    return path

/-- Stages a tensor for a case and role and gives its path. -/
def saveTensor (a : Area) (j : Journal) (case : String) (role : Role) (t : Tensor) :
    Action Files String :=
  j.logged case "stage" do
    Step.act (.settle (checkCase case))
    let path := a.tensorPath case role
    let bytes ← Step.act (.settle ((t.toFile a.format).mapError fun e => .staging path (.dataset e)))
    let digest := sha256Hex bytes
    Step.act do
      a.writeFile path bytes
      a.updateManifest (·.record {
        case, role
        file := a.tensorFile case role
        shape := some t.shape
        dtype := t.elementType.name
        format := a.format.name
        sha256 := digest })
    Step.note fun n =>
      { n with outputDigest := digest, artifacts := [path], detail := role.stem }
    return path

/-- The shape and element type that the file of a tensor tells. A raw file tells neither, so
its shape is unknown and its element type is the one given. -/
def describe (a : Area) (path : String) (bytes : Bytes) (kind : ElementType) :
    Except Failure (Option Shape × ElementType) :=
  match a.format with
  | .raw => .ok (none, kind)
  | .npy =>
    match Tensor.ofFile bytes .npy [] kind with
    | .ok t => .ok (some t.shape, t.elementType)
    | .error cause => .error (.decode path (.dataset cause))

/-- Records a tensor that a tool wrote to the path of its case and role. -/
def recordExternal (a : Area) (case : String) (role : Role) (kind : ElementType) :
    Action Files TensorEntry := do
  Action.settle (checkCase case)
  let path := a.tensorPath case role
  let bytes ← readExisting path
  let (shape, kind) ← Action.settle (a.describe path bytes kind)
  let entry : TensorEntry := {
    case, role
    file := a.tensorFile case role
    shape
    dtype := kind.name
    format := a.format.name
    sha256 := sha256Hex bytes }
  a.updateManifest (·.record entry)
  return entry

/-! ## Asking -/

/-- Whether a tensor is recorded and its file is there. -/
def hasTensor (a : Area) (case : String) (role : Role) : Action Files Bool := do
  let m ← a.readManifest
  return (m.tensor? case role).any (a.holds (← get))

/-- The recorded inputs whose files are there. -/
def stagedInputs (a : Area) : Action Files (List TensorEntry) := do
  let m ← a.readManifest
  let files ← get
  return m.tensors.filter fun e => e.role == .input && a.holds files e

/-- The record of a tensor. -/
def tensorEntry (a : Area) (case : String) (role : Role) : Action Files TensorEntry := do
  match (← a.readManifest).tensor? case role with
  | some entry => return entry
  | none => throw (.missing (a.tensorPath case role) (.tensor case role))

/-- The tensor that a recorded file holds. A raw file without recorded shape is one row. -/
def decodeEntry (e : TensorEntry) (bytes : Bytes) : Except DecodeFault Tensor := do
  let format ← (DatasetFormat.parse e.format).mapError .dataset
  match ElementType.parse? e.dtype with
  | none => .error (.elementType e.dtype)
  | some kind =>
    let decoded := match e.shape, format with
      | some shape, _ => Tensor.ofFile bytes format shape kind
      | none, .raw => RawFile.decodeFlat bytes kind
      | none, .npy => Tensor.ofFile bytes format [] kind
    decoded.mapError .dataset

/-- A staged tensor. -/
def loadTensor (a : Area) (case : String) (role : Role) : Action Files Tensor := do
  let entry ← a.tensorEntry case role
  let path := Path.join a.root entry.file
  let bytes ← readExisting path
  Action.settle ((decodeEntry entry bytes).mapError (.decode path))

/-- The path and the format of the staged model. -/
def model (a : Area) : Action Files (String × String) := do
  match (← a.readManifest).model with
  | none => throw (.missing (Path.join a.root modelStem) .model)
  | some entry =>
    let path := Path.join a.root entry.file
    if (← get).isFile path then return (path, entry.format) else throw (.missing path .modelFile)

/-- Drops neighbours that are equal. -/
def dropRepeats : List String → List String
  | [] => []
  | [s] => [s]
  | s :: t :: rest => if s = t then dropRepeats (t :: rest) else s :: dropRepeats (t :: rest)

/-- The cases with a recorded tensor, each once and in order. -/
def stagedCases (a : Area) : Action Files (List String) := do
  let m ← a.readManifest
  return dropRepeats ((m.tensors.map (·.case)).mergeSort Files.textLe)

end Area

end NetTrial
