import NetTrial.Trial.Suite
/-!
# The commands of the harness

One command stages fixtures and runs no tool; the other runs a suite and writes its report.
A command is a function of the files: it says what is printed, the exit code, and the files
afterwards.
-/

namespace NetTrial

open Number

/-- What a command has printed and how it ends. -/
structure Transcript where
  /-- The standard output. -/
  stdout : String
  /-- The standard error. -/
  stderr : String
  /-- The exit code. -/
  exitCode : Nat
  deriving DecidableEq, Repr

namespace Transcript

/-- A command that went well. -/
def success (stdout : String) : Transcript := ⟨stdout, "", 0⟩

/-- A command of a name that failed, after it printed something. -/
def failure (command stdout remarks message : String) : Transcript :=
  ⟨stdout, remarks ++ command ++ " failed: " ++ message ++ "\n", 1⟩

end Transcript

/-- The commands. -/
inductive HarnessCommand where
  /-- Stages the fixtures, or only the one with an id. -/
  | stage (only : Option String)
  /-- Runs the fixtures as a suite. -/
  | verify
  deriving DecidableEq, Repr

namespace HarnessCommand

/-- The name of a command. -/
def name : HarnessCommand → String
  | .stage _ => "stage_reference_case"
  | .verify => "run_verification_suite"

/-- Stages fixtures in order, up to the first that cannot be staged, and prints a line for
each. -/
def stageAll (s : Setup) (j : Journal) (printed : String) :
    List Fixture → Files → Except (String × Failure) String × Files
  | [], files => (.ok printed, files)
  | f :: rest, files =>
    match (f.stage s j).run files with
    | (.error cause, files) => (.error (printed, cause), files)
    | (.ok a, files) =>
      stageAll s j (printed ++ "staged " ++ f.id ++ " -> " ++ a.root ++ "\n") rest files

/-- Stages the fixtures that were asked for. -/
def runStage (s : Setup) (j : Journal) (fixtures : List Fixture) (only : Option String)
    (files : Files) : Transcript × Files :=
  let command := (stage only).name
  let chosen := fixtures.filter fun f => only.all (· == f.id)
  match stageAll s j "" chosen files with
  | (.error (printed, cause), files) => (.failure command printed "" cause.message, files)
  | (.ok printed, files) =>
    if chosen.isEmpty then
      (.failure command printed "" ("no fixture case matched " ++ only.getD "<all>"), files)
    else (.success printed, files)

/-- The path of the report of a suite. -/
def reportPath (s : Setup) : String := Path.join s.workRoot "suite_report.json"

/-- What a suite prints at its end. -/
def summary (s : Setup) (r : SuiteReport) : String :=
  SuiteReport.name ++ ": cases=" ++ natText r.caseCount ++ " passed=" ++ natText r.passCount ++
    " failed=" ++ natText r.failures.length ++ " compiler=" ++ s.tools.compiler.program ++
    " runtime=" ++ s.tools.runtime.program ++ "\n" ++ "wrote " ++ reportPath s ++ "\n"

/-- Runs the fixtures as a suite and writes the report. -/
def runVerify {σ : Type} (s : Setup) (j : Journal) (l : Launcher σ) (tools : σ)
    (fixtures : List Fixture) (files : Files) : Transcript × Files :=
  let command := verify.name
  let (report, bench) := (s.runFixtures j l fixtures).run ⟨files, tools, []⟩
  match (report.write (reportPath s)).run bench.files with
  | (.error cause, files) => (.failure command "" "" cause.message, files)
  | (.ok (), files) =>
    if report.allPassed then (.success (summary s report), files)
    else
      let remarks := String.join (report.failures.map fun f => "  " ++ f ++ "\n")
      (.failure command (summary s report) remarks
        (natText report.failures.length ++ " case(s) failed"), files)

/-- Runs a command. -/
def run {σ : Type} (c : HarnessCommand) (s : Setup) (j : Journal) (l : Launcher σ) (tools : σ)
    (fixtures : List Fixture) (files : Files) : Transcript × Files :=
  match c with
  | .stage only => runStage s j fixtures only files
  | .verify => runVerify s j l tools fixtures files

end HarnessCommand

end NetTrial
