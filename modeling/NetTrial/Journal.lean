import NetTrial.Failure
/-!
# Actions and the journal

An action changes a state and gives a value or a failure; what it changed before a failure
stays changed. A step is an action that takes notes on the way, and the journal keeps one
line for each step: how it ended and what it noted. A line that cannot be written is a
failure of the step only if the step itself went well.
-/

namespace NetTrial

open Json Text

/-- What changes a state and may fail. -/
abbrev Action (σ α : Type) := ExceptT Failure (StateM σ) α

/-- What a step notes for its line in the journal. -/
structure Notes where
  /-- The digest of what the step worked on. -/
  inputDigest : String := ""
  /-- The digest of what the step made. -/
  outputDigest : String := ""
  /-- The paths of the files that the step touched. -/
  artifacts : List String := []
  /-- What else is worth a remark. -/
  detail : String := ""
  deriving DecidableEq, Repr

/-- An action that takes notes. The notes stay when it fails. -/
abbrev Step (σ α : Type) := ExceptT Failure (StateT Notes (StateM σ)) α

namespace Action

/-- Asks the files; a refusal is a failure of staging at a path. -/
def ask {α : Type} (path : String) (question : Files → Except OsError α) : Action Files α := do
  match question (← get) with
  | .ok answer => return answer
  | .error cause => throw (.os path cause)

/-- Changes the files, or fails and leaves them; a refusal is a failure of staging at a
path. -/
def edit (path : String) (change : Files → Except OsError Files) : Action Files Unit := do
  set (← ask path change)

/-- Changes the files and reports how far it came. -/
def attempt (path : String) (change : Files → Except OsError Unit × Files) :
    Action Files Unit := do
  let (result, files) := change (← get)
  set files
  match result with
  | .ok () => return ()
  | .error cause => throw (.os path cause)

/-- Gives the value of a computation that needs no state. -/
def settle {σ α : Type} (result : Except Failure α) : Action σ α := ExceptT.mk (pure result)

/-- An action on the files as one on a bench. -/
def onBench {σ α : Type} (act : Action Files α) : Action (Bench σ) α := fun b =>
  let (result, files) := act b.files
  (result, { b with files := files })

end Action

namespace Step

/-- Takes notes. -/
def note {σ : Type} (change : Notes → Notes) : Step σ Unit :=
  (modify change : StateT Notes (StateM σ) Unit)

/-- Notes that a file was touched. -/
def noteArtifact {σ : Type} (path : String) : Step σ Unit :=
  note fun n => { n with artifacts := n.artifacts ++ [path] }

/-- An action within a step. -/
def act {σ α : Type} (a : Action σ α) : Step σ α := fun notes state =>
  let (result, state) := a state
  ((result, notes), state)

/-- A step with its notes as an action that always comes to its end. -/
def run {σ α : Type} (step : Step σ α) : Action σ (Except Failure α × Notes) := fun state =>
  let (ended, state) := step {} state
  (.ok ended, state)

end Step

/-! ## The journal -/

/-- Where the journal is kept and what its lines are stamped with. -/
structure Journal where
  /-- The path of the journal; none when none is kept. -/
  path : Option String := none
  /-- The time in milliseconds. -/
  time : Nat := 0
  deriving DecidableEq, Repr

/-- A line of the journal. -/
structure Journal.Line where
  /-- The time in milliseconds. -/
  time : Nat
  /-- The case; empty for a step that belongs to none. -/
  case : String
  /-- The name of the step. -/
  step : String
  /-- The failure of the step, if it failed. -/
  failure : Option Failure
  /-- How long the step took, in milliseconds. -/
  duration : Nat := 0
  /-- What the step noted. -/
  notes : Notes
  deriving DecidableEq, Repr

/-- A line as a document. The detail of a step that failed is the text of its failure. -/
def Journal.Line.toJson (l : Journal.Line) : Json :=
  .object
    [ member "ts_unix_ms" (nat l.time), member "case_id" (string l.case),
      member "step" (string l.step),
      member "outcome" (string (if l.failure.isSome then "fail" else "pass")),
      member "reason_code" (string ((l.failure.map Failure.reasonCode).getD "ok")),
      member "duration_ms" (nat l.duration),
      member "input_digest" (string l.notes.inputDigest),
      member "output_digest" (string l.notes.outputDigest),
      member "artifact_refs" (list string l.notes.artifacts),
      member "detail" (string ((l.failure.map Failure.message).getD l.notes.detail)) ]

namespace Journal

/-- The journal of two settings, the first of which wins. -/
def ofPaths (chosen fallback : Option String) (time : Nat) : Journal :=
  ⟨chosen.orElse fun _ => fallback, time⟩

/-- Makes the directory that a file is to stand in. -/
def makeParent (path : String) : Action Files Unit :=
  match Path.parent? path with
  | some up => Action.attempt up (·.makeDirectories up)
  | none => return ()

/-- Writes a line, if a journal is kept. -/
def append (j : Journal) (line : Line) : Action Files Unit :=
  match j.path with
  | none => return ()
  | some path => do
    makeParent path
    Action.edit path (·.append path (line.toJson.compactBytes ++ encodeChars ['\n']))

/-- Ends a step: writes its line and gives its result. -/
def close {α : Type} (j : Journal) (case step : String) (ended : Except Failure α × Notes) :
    Action Files α := fun files =>
  let (result, notes) := ended
  let failure := match result with
    | .ok _ => none
    | .error cause => some cause
  let (written, files) := j.append { time := j.time, case, step, failure, notes } files
  match result, written with
  | .ok value, .ok () => (.ok value, files)
  | .ok _, .error cause => (.error cause, files)
  | .error cause, _ => (.error cause, files)

/-- Runs a step on the files and writes its line. -/
def logged {α : Type} (j : Journal) (case name : String) (step : Step Files α) :
    Action Files α := do
  j.close case name (← step.run)

/-- Runs a step on a bench and writes its line. -/
def loggedOnBench {σ α : Type} (j : Journal) (case name : String) (step : Step (Bench σ) α) :
    Action (Bench σ) α := do
  (j.close case name (← step.run)).onBench

end Journal

end NetTrial
