import NetTrial.Trial.Comparison
import NetTrial.Tool.Options
/-!
# Reports

A case ends with a verdict. Whether it passed, its code and its text are read off the
verdict; how many cases passed and which did not are read off the list of case reports.
-/

namespace NetTrial

open Number Json

/-- How a case ends. -/
inductive Verdict where
  /-- The candidate is close enough, and inexact if that was to be checked. -/
  | passed (comparison : Comparison) (artifactDigest : String) (checkedInexact : Bool)
  /-- The candidate is exact though it should not be. -/
  | exact (comparison : Comparison) (kind : InferenceType)
  /-- A step failed. -/
  | failed (cause : Failure)
  deriving DecidableEq, Repr

/-- The report of a case. -/
structure CaseReport where
  /-- The id of the case. -/
  id : String
  /-- How it ended. -/
  verdict : Verdict
  /-- How many launches it took. -/
  invocations : Nat
  deriving DecidableEq, Repr

namespace CaseReport

/-- Whether the case passed. -/
def hasPassed (r : CaseReport) : Bool :=
  match r.verdict with
  | .passed .. => true
  | _ => false

/-- The stable code of the end of the case. -/
def reasonCode (r : CaseReport) : String :=
  match r.verdict with
  | .passed .. => "ok"
  | .exact .. => "harness_zero_tolerance_passed"
  | .failed cause => cause.reasonCode

/-- The end of the case in words. -/
def detail (r : CaseReport) : String :=
  match r.verdict with
  | .passed c digest _ =>
    "max_abs_error=" ++ c.worst.text ++ " tolerance=" ++ c.tolerance.text ++
      " artifact_sha256=" ++ digest
  | .exact _ kind =>
    r.id ++ ": " ++ kind.name ++
      " output matched the reference exactly; quantization error was expected"
  | .failed cause => cause.message

/-- The comparison, if the case came so far. -/
def comparison? (r : CaseReport) : Option Comparison :=
  match r.verdict with
  | .passed c .. => some c
  | .exact c _ => some c
  | .failed _ => none

/-- Whether the candidate was found inexact, if that was checked. -/
def foundInexact? (r : CaseReport) : Option Bool :=
  match r.verdict with
  | .passed _ _ checked => if checked then some true else none
  | .exact .. => some false
  | .failed _ => none

/-- The report of a case as a document. -/
def toJson (r : CaseReport) : Json :=
  .object
    [ member "id" (string r.id), member "passed" (.bool r.hasPassed),
      member "reason_code" (string r.reasonCode), member "detail" (string r.detail),
      member "comparison" (optional Comparison.toJson r.comparison?),
      member "zero_tolerance_rejected" (optional .bool r.foundInexact?),
      member "invocations" (nat r.invocations) ]

/-- A case that did not pass, in one line. -/
def failureLine (r : CaseReport) : String := r.id ++ ": [" ++ r.reasonCode ++ "] " ++ r.detail

end CaseReport

/-- The report of a suite: those of its cases in order. -/
structure SuiteReport where
  /-- The reports of the cases. -/
  cases : List CaseReport
  deriving DecidableEq, Repr

namespace SuiteReport

/-- The name of the suite. -/
def name : String := "conv2d_pipeline"

/-- How many cases there are. -/
def caseCount (r : SuiteReport) : Nat := r.cases.length

/-- How many cases passed. -/
def passCount (r : SuiteReport) : Nat := r.cases.countP CaseReport.hasPassed

/-- A line for each case that did not pass. -/
def failures (r : SuiteReport) : List String :=
  (r.cases.filter fun c => !c.hasPassed).map CaseReport.failureLine

/-- Whether all cases passed. -/
def allPassed (r : SuiteReport) : Bool := r.caseCount == r.passCount && r.failures.isEmpty

/-- All cases passed when there is no failure to list, and only then. -/
theorem allPassed_iff (r : SuiteReport) :
    r.allPassed = true ↔ ∀ c ∈ r.cases, c.hasPassed = true := by
  simp only [allPassed, Bool.and_eq_true, beq_iff_eq, caseCount, passCount]
  constructor
  · rintro ⟨h, _⟩
    exact List.countP_eq_length.mp h.symm
  · intro h
    refine ⟨(List.countP_eq_length.mpr h).symm, ?_⟩
    have : r.cases.filter (fun c => !c.hasPassed) = [] := by
      rw [List.filter_eq_nil_iff]
      intro c hc
      simp [h c hc]
    simp [failures, this]

/-- The report of a suite as a document. -/
def toJson (r : SuiteReport) : Json :=
  .object
    [ member "suite" (string name), member "case_count" (nat r.caseCount),
      member "pass_count" (nat r.passCount), member "failures" (list string r.failures),
      member "cases" (list CaseReport.toJson r.cases) ]

/-- The document of a suite. -/
def bytes (r : SuiteReport) : Text.Bytes := r.toJson.prettyBytes

/-- Writes the report of a suite; the directory is made if it is missing. -/
def write (r : SuiteReport) (path : String) : Action Files Unit := do
  Journal.makeParent path
  Action.edit path (·.write path r.bytes)

end SuiteReport

end NetTrial
