import NetTrial.Staging.Area
/-!
# Comparing tensors

A candidate passes when no element differs from the expected one by more than the
tolerance. The errors of all elements are one list; the worst of them and the first that
is too large are read off it. Elements that are equal, or both no number, have no error; a
difference that is no number counts as infinite.
-/

namespace NetTrial

open Number Json Digest

/-- The error of an element. -/
def elementError (expected actual : Double) : Double :=
  if expected.equals actual || (expected.isNaN && actual.isNaN) then .zero
  else
    let difference := (expected.sub actual).abs
    if difference.isNaN then .infinity else difference

/-- The errors of all elements. -/
def elementErrors (expected actual : List Double) : List Double :=
  List.zipWith elementError expected actual

/-- The worst of some errors; zero when there are none. -/
def worstError (errors : List Double) : Double := errors.foldl Double.maxMagnitude .zero

/-- Whether an error is outside a tolerance that is not negative. -/
def exceeds (tolerance error : Double) : Bool := tolerance.magnitude < error.magnitude

/-- A comparison that passed. -/
structure Comparison where
  /-- The case. -/
  case : String
  /-- The tolerance. -/
  tolerance : Double
  /-- How many elements were compared. -/
  count : Nat
  /-- The worst error of all elements. -/
  worst : Double
  deriving DecidableEq, Repr

/-- A comparison as a document. -/
def Comparison.toJson (c : Comparison) : Json :=
  .object
    [ member "case_id" (string c.case), member "tolerance" (double c.tolerance),
      member "element_count" (nat c.count), member "max_abs_error" (double c.worst),
      member "pass" (.bool true) ]

/-- Compares a candidate with what is expected of it. The shapes have to be the same. -/
def compareTensors (case : String) (expected candidate : Tensor) (tolerance : Double) :
    Except Failure Comparison :=
  if !tolerance.isFinite || tolerance.isBelowZero then .error (.config (.tolerance case tolerance))
  else if expected.shape ≠ candidate.shape then
    .error (.shapeMismatch case expected.shape candidate.shape)
  else
    let wanted := expected.toDoubles
    let found := candidate.toDoubles
    let errors := elementErrors wanted found
    match errors.findIdx? (exceeds tolerance) with
    | none => .ok { case, tolerance, count := wanted.length, worst := worstError errors }
    | some flat =>
      .error (.tolerance {
        case, tolerance
        flatIndex := flat
        index := ((Shape.unravel flat expected.shape).toOption).getD []
        expected := wanted.getD flat .zero
        actual := found.getD flat .zero
        error := errors.getD flat .zero
        worst := worstError errors })

/-! ## Staged tensors -/

/-- The expected and the candidate tensor of a case, and the digest of the candidate. -/
structure StagedPair where
  /-- The expected tensor. -/
  expected : Tensor
  /-- The candidate tensor. -/
  candidate : Tensor
  /-- The recorded digest of the candidate. -/
  digest : String
  deriving DecidableEq, Repr

/-- A candidate of unknown shape under the expected shape, which has to ask for as many
elements. -/
def adoptShape (case : String) (expected candidate : Tensor) : Except Failure Tensor :=
  if candidate.length ≠ expected.length then
    .error (.shapeMismatch case expected.shape candidate.shape)
  else
    (candidate.reshaped expected.shape).mapError fun cause =>
      .shapeMismatch (case ++ " (" ++ cause.message ++ ")") expected.shape candidate.shape

namespace Area

/-- The staged pair of a case. -/
def loadPair (a : Area) (case : String) : Action Files StagedPair := do
  let expected ← a.loadTensor case .expected
  let entry ← a.tensorEntry case .candidate
  let candidate ← a.loadTensor case .candidate
  match entry.shape with
  | some _ => return ⟨expected, candidate, entry.sha256⟩
  | none =>
    let candidate ← Action.settle (adoptShape case expected candidate)
    return ⟨expected, candidate, entry.sha256⟩

/-- Compares the staged pair of a case. -/
def closeTo (a : Area) (j : Journal) (case : String) (tolerance : Double) :
    Action Files Comparison :=
  j.logged case "compare" do
    let pair ← Step.act (a.loadPair case)
    Step.note fun n => { n with
      artifacts := [a.tensorPath case .expected, a.tensorPath case .candidate]
      inputDigest := sha256Hex pair.expected.elements.toBytes
      outputDigest := pair.digest }
    let comparison ← Step.act (.settle (compareTensors case pair.expected pair.candidate tolerance))
    Step.note fun n => { n with
      detail := "tolerance=" ++ comparison.tolerance.text ++ " max_abs_error=" ++
        comparison.worst.text }
    return comparison

end Area

end NetTrial
