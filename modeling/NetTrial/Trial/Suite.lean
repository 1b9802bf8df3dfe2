import NetTrial.Trial.Fixture
import NetTrial.Trial.Invocation
import NetTrial.Trial.Reference
import NetTrial.Trial.Report
import NetTrial.Trial.Setup
/-!
# Running trials

A trial of a fixture stages model, input and reference output in a directory of its own,
compiles the model, runs the artifact and compares the candidate with the reference. A
suite runs all fixtures in order, each on an empty ledger, and reports on every one.
-/

namespace NetTrial

namespace Setup

/-- The staging area of a fixture. -/
def area (s : Setup) (f : Fixture) (format : DatasetFormat) : Area :=
  ⟨Path.join s.workRoot f.id, format⟩

end Setup

namespace Fixture

/-- The evaluator of fixtures: graph models, and a runtime with the channels first. -/
def evaluator : Evaluator := ⟨.graph, .nchw⟩

/-- Empties the area of a fixture and stages its model, its input and what is expected. -/
def stage (f : Fixture) (s : Setup) (j : Journal) : Action Files Area := do
  Action.settle f.checkId
  let options ← Action.settle f.inferOptions
  let a := s.area f options.datasetFormat
  a.clear j
  let _ ← a.saveModel j f.model.source
  let input ← Action.settle f.input
  let _ ← evaluator.stageExpected a j f.case f.model.source input
  return a

/-- The compiler options, calibrated on the staged input unless they name other data. -/
def calibrated (f : Fixture) (a : Area) (o : CompileOptions) : CompileOptions :=
  if o.requiresCalibration ∧ o.dataset = none then
    o.withDataset (a.tensorPath f.case .input) a.format
  else o

/-- Whether the staged candidate differs from what is expected at all. -/
def isInexact (f : Fixture) (a : Area) : Action Files Bool := do
  let pair ← a.loadPair f.case
  match compareTensors f.case pair.expected pair.candidate .zero with
  | .ok _ => return false
  | .error (.tolerance _) => return true
  | .error cause => throw cause

/-- The verdict on a candidate that is close enough. -/
def judge (f : Fixture) (s : Setup) (a : Area) (kind : InferenceType) (compiled : Compiled)
    (comparison : Comparison) : Action Files Verdict := do
  if f.expectInexact && s.strict then
    if ← f.isInexact a then return .passed comparison compiled.sha256 true
    else return .exact comparison kind
  else return .passed comparison compiled.sha256 false

variable {σ : Type}

/-- Runs the trial of a fixture on the ledger that is there. -/
def trial (f : Fixture) (s : Setup) (j : Journal) (l : Launcher σ) : Action (Bench σ) Verdict := do
  let compileOptions ← Action.settle f.compileOptions
  let inferOptions ← Action.settle f.inferOptions
  let a ← (f.stage s j).onBench
  let compileOptions := f.calibrated a compileOptions
  let compiled ← a.compile j l s.tools.compiler compileOptions
  let _ ← a.infer j l s.tools.runtime f.case inferOptions
  let comparison ← (a.closeTo j f.case f.tolerance).onBench
  (f.judge s a compileOptions.inferenceType compiled comparison).onBench

/-- Runs the trial of a fixture on an empty ledger. -/
def run (f : Fixture) (s : Setup) (j : Journal) (l : Launcher σ) :
    Action (Bench σ) CaseReport := do
  modify fun b => { b with ledger := [] }
  let verdict ← f.trial s j l
  return ⟨f.id, verdict, (← get).ledger.length⟩

/-- Runs the trial of a fixture and reports on it, also when it fails. -/
def report (f : Fixture) (s : Setup) (j : Journal) (l : Launcher σ) :
    StateM (Bench σ) CaseReport := fun b =>
  match (f.run s j l).run b with
  | (.ok report, b) => (report, b)
  | (.error cause, b) => (⟨f.id, .failed cause, b.ledger.length⟩, b)

end Fixture

namespace Setup

variable {σ : Type}

/-- Runs fixtures in order. -/
def runFixtures (s : Setup) (j : Journal) (l : Launcher σ) (fixtures : List Fixture) :
    StateM (Bench σ) SuiteReport := do
  return ⟨← fixtures.mapM fun f => f.report s j l⟩

/-- Runs the fixtures of the setup in order. Only unreadable fixtures are a failure. -/
def runSuite (s : Setup) (j : Journal) (l : Launcher σ) : Action (Bench σ) SuiteReport := do
  let fixtures ← Action.settle (Fixture.load (← get).files s.fixturePath)
  ExceptT.lift (s.runFixtures j l fixtures)

end Setup

end NetTrial
