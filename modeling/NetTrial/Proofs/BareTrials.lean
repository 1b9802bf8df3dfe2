import NetTrial.Proofs.Trials
/-!
# Trials without a journal

Without a journal a trial is four things in a row: what is asked for is looked at, the area is
cleared, it is filled with model, input and reference output, and the tools are launched and
their outcome is judged. A trial that is refused at first sight changes nothing.
-/

namespace NetTrial

open NetTrial.Path Text Digest NetTrial.Action

namespace Action

variable {σ α β : Type}

theorem onBench_bind (x : Action Files α) (f : α → Action Files β) :
    ((x >>= f).onBench : Action (Bench σ) β) = x.onBench >>= fun a => (f a).onBench := by
  refine ext_run fun b => ?_
  rw [run_bind, run_onBench, run_onBench, run_bind]
  rcases x.run b.files with ⟨_ | _, _⟩ <;> rfl

theorem onBench_pure (a : α) :
    ((pure a : Action Files α).onBench : Action (Bench σ) α) = pure a := rfl

theorem onBench_settle (r : Except Failure α) :
    ((settle r : Action Files α).onBench : Action (Bench σ) α) = settle r := rfl

end Action

/-- Stages an input, computes the reference output and stages it, without lines in the
journal. -/
def Evaluator.expect (e : Evaluator) (a : Area) (case : String) (source : ModelSource)
    (input : Tensor) : Action Files Tensor := do
  if !e.accepts source.signature input then
    throw (.config (.signature case (.ofTensor input) e.runtimeOrder source.signature
      e.interpreter.order))
  let _ ← a.stageTensor case .input input
  let expected ← Fixture.evaluated e source input
  let _ ← a.stageTensor case .expected expected
  return expected

theorem Evaluator.stageExpected_silent {j : Journal} (hj : j.path = none) (e : Evaluator)
    (a : Area) (case : String) (source : ModelSource) (input : Tensor) :
    e.stageExpected a j case source input = e.expect a case source input := by
  obtain ⟨refer, hrefer, hparts⟩ := Fixture.stageExpected_parts e a j case source input
  have hreference : j.logged case "reference" refer = Fixture.evaluated e source input :=
    ext_run fun fs => (j.logged_run case "reference" hrefer fs).silent hj
  simp only [hparts, Area.saveTensor_silent hj, hreference, expect]

namespace Fixture

variable {σ : Type}

/-- The options of a fixture, if nothing is refused at first sight. -/
def admitted (f : Fixture) : Except Failure (CompileOptions × InferOptions) := do
  let o ← f.compileOptions
  let o' ← f.inferOptions
  f.checkId
  return (o, o')

theorem admitted_eq_ok {f : Fixture} {o : CompileOptions} {o' : InferOptions} :
    f.admitted = .ok (o, o') ↔
      f.compileOptions = .ok o ∧ f.inferOptions = .ok o' ∧ f.checkId = .ok () := by
  rw [admitted]
  cases f.compileOptions <;> cases f.inferOptions <;> cases f.checkId <;>
    simp [bind, Except.bind, pure, Except.pure]

theorem isName_of_checkId {f : Fixture} (h : f.checkId = .ok ()) : IsName f.id := by
  rw [checkId] at h
  by_cases hfit : Area.isUnfitName f.id = true
  · rw [if_pos hfit] at h
    cases h
  · exact Area.isName_of_fit (Bool.not_eq_true _ ▸ hfit)

/-- Fills a cleared area with the model, the input and what is expected. -/
def fill (f : Fixture) (a : Area) : Action Files Unit := do
  let _ ← a.stageModel f.model.source
  let input ← Action.settle f.input
  let _ ← evaluator.expect a f.case f.model.source input

/-- What is left of a trial when its area is cleared. -/
def carryOn (f : Fixture) (s : Setup) (l : Launcher σ) (a : Area) (o : CompileOptions)
    (o' : InferOptions) : Action (Bench σ) Verdict := do
  (f.fill a).onBench
  f.proceed s l a (f.calibrated a o) o'

theorem stage_silent {j : Journal} (hj : j.path = none) (f : Fixture) (s : Setup)
    {o' : InferOptions} (hid : f.checkId = .ok ()) (ho' : f.inferOptions = .ok o') :
    f.stage s j = (do
      (s.area f o'.datasetFormat).reset
      f.fill (s.area f o'.datasetFormat)
      return s.area f o'.datasetFormat) := by
  refine ext_run fun fs => ?_
  rw [stage, run_settle_bind, hid]
  simp only
  rw [run_settle_bind, ho']
  simp only [Area.clear_silent hj, Area.saveModel_silent hj, Evaluator.stageExpected_silent hj,
    fill, bind_assoc, pure_bind]

/-- A trial without a journal: refused at first sight, or run from a cleared area. -/
theorem trial_silent {j : Journal} (hj : j.path = none) (f : Fixture) (s : Setup)
    (l : Launcher σ) (b : Bench σ) :
    (f.trial s j l).run b = match f.admitted with
      | .error e => (.error e, b)
      | .ok (o, o') => ((s.area f o'.datasetFormat).reset.onBench >>= fun _ =>
          f.carryOn s l (s.area f o'.datasetFormat) o o').run b := by
  rw [trial, run_settle_bind]
  cases ho : f.compileOptions with
  | error e =>
    rw [admitted, ho]
    rfl
  | ok o =>
    simp only
    rw [run_settle_bind]
    cases ho' : f.inferOptions with
    | error e =>
      rw [admitted, ho, ho']
      rfl
    | ok o' =>
      simp only
      cases hid : f.checkId with
      | error e =>
        have hstage : f.stage s j = Action.settle (.error e) := by
          refine ext_run fun fs => ?_
          rw [stage, run_settle_bind, hid]
          rfl
        rw [hstage, onBench_settle, run_settle_bind, admitted, ho, ho', hid]
        rfl
      | ok _ =>
        have hadmitted : f.admitted = .ok (o, o') := by
          rw [admitted, ho, ho', hid]
          rfl
        rw [hadmitted, stage_silent hj f s hid ho']
        simp only [onBench_bind, onBench_pure, bind_assoc, pure_bind, carryOn, proceed,
          Area.compile_silent hj, Area.infer_silent hj, Area.closeTo_silent hj]

/-- The report on a fixture tells how its trial on an empty ledger ends. -/
theorem report_run (f : Fixture) (s : Setup) (j : Journal) (l : Launcher σ) (b : Bench σ) :
    (f.report s j l).run b = (⟨f.id, match ((f.trial s j l).run { b with ledger := [] }).1 with
        | .ok verdict => verdict
        | .error cause => .failed cause,
        ((f.trial s j l).run { b with ledger := [] }).2.ledger.length⟩,
      ((f.trial s j l).run { b with ledger := [] }).2) := by
  simp only [report, StateT.run, run_run]
  rcases (f.trial s j l).run { b with ledger := [] } with ⟨_ | _, _⟩ <;> rfl

end Fixture

end NetTrial
