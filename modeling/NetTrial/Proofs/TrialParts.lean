import NetTrial.Proofs.Deliveries
/-!
# The parts of a trial

The reference output is what the evaluator gives on the staged model, between two tensors that are
saved. A pair of tensors of one shape is always judged, and fails its case only for being exact.
A trial is run on an empty ledger.
-/

namespace NetTrial

open NetTrial.Path Text Digest NetTrial.Action

namespace Fixture

variable {f : Fixture} {a : Area} {fs fs' : Files} {expected : Tensor}

/-! ## The reference output -/

/-- The reference output of a fixture: what its model gives on its input. -/
def reference (f : Fixture) : Except Failure Tensor := do
  let input ← f.input
  evaluator.evaluate f.model.bytes input

/-- What the evaluator gives, without a line in the journal. -/
def evaluated (e : Evaluator) (source : ModelSource) (input : Tensor) : Action Files Tensor := do
  let serialized ← Action.settle (source.serialized.mapError .modelInvalid)
  Action.settle (e.evaluate serialized input)

theorem evaluated_eq_ok {e : Evaluator} {source : ModelSource} {input t : Tensor}
    {serialized : Bytes} (hs : source.serialized = .ok serialized)
    (h : (evaluated e source input).run fs = (.ok t, fs')) :
    e.evaluate serialized input = .ok t := by
  rw [evaluated, run_settle_bind, hs] at h
  change (Action.settle (e.evaluate serialized input)).run fs = _ at h
  rw [run_settle] at h
  exact congrArg Prod.fst h

/-- The parts of staging what is expected: a check, and three steps of which the second asks the
evaluator. -/
theorem stageExpected_parts (e : Evaluator) (a : Area) (j : Journal) (case : String)
    (source : ModelSource) (input : Tensor) :
    ∃ refer : Step Files Tensor, refer.DoesAs (evaluated e source input) ∧
      e.stageExpected a j case source input = do
        if !e.accepts source.signature input then
          throw (.config (.signature case (.ofTensor input) e.runtimeOrder source.signature
            e.interpreter.order))
        let _ ← a.saveTensor j case .input input
        let expected ← j.logged case "reference" refer
        let _ ← a.saveTensor j case .expected expected
        return expected := by
  refine ⟨_, ?_, rfl⟩
  refine .note_bind _ (.bind (.act _) fun serialized => .note_bind _ (.of_bind_pure ?_))
  exact .bind (.act _) fun expected => .note_bind _ (.pure _)

/-! ## The verdict -/

/-- Every error between two tensors is zero, and this counts against the case. -/
def FoundExact (f : Fixture) (s : Setup) (expected candidate : Tensor) : Prop :=
  s.strict = true ∧ f.expectInexact = true ∧
    ∀ error ∈ elementErrors expected.toDoubles candidate.toDoubles, error = .zero

/-- A pair of one shape is judged, and the files are left alone. -/
theorem judge_of_pair {pair : StagedPair} (hload : (a.loadPair f.case).run fs = (.ok pair, fs))
    (hshape : pair.expected.shape = pair.candidate.shape) (s : Setup) (kind : InferenceType)
    (compiled : Compiled) (comparison : Comparison) :
    ∃ verdict, (f.judge s a kind compiled comparison).run fs = (.ok verdict, fs) ∧
      ∀ id count, CaseReport.hasPassed ⟨id, verdict, count⟩ = false ↔
        f.FoundExact s pair.expected pair.candidate := by
  rw [judge]
  by_cases hasked : (f.expectInexact && s.strict) = true
  · rw [if_pos hasked]
    obtain ⟨hinexact, hstrict⟩ := Bool.and_eq_true_iff.mp hasked
    rcases compareTensors_of_shape f.case Double.isTolerance_zero hshape with
      ⟨hnear, c, hc⟩ | ⟨hfar, v, hv⟩
    · have hrun : (f.isInexact a).run fs = (.ok false, fs) := by
        rw [isInexact, run_bind_of_ok hload]
        simp only [hc]
        rfl
      rw [run_bind_of_ok hrun]
      refine ⟨_, rfl, fun id count => ⟨fun _ => ?_, fun _ => rfl⟩⟩
      exact ⟨hstrict, hinexact, (near_zero_iff hshape).mp hnear⟩
    · have hrun : (f.isInexact a).run fs = (.ok true, fs) := by
        rw [isInexact, run_bind_of_ok hload]
        simp only [hv]
        rfl
      rw [run_bind_of_ok hrun]
      refine ⟨_, rfl, fun id count => ⟨(fun h => nomatch h), fun h => ?_⟩⟩
      exact absurd ((near_zero_iff hshape).mpr h.2.2) hfar
  · rw [if_neg hasked]
    refine ⟨_, rfl, fun id count => ⟨(fun h => nomatch h), fun h => absurd ?_ hasked⟩⟩
    exact Bool.and_eq_true_iff.mpr ⟨h.2.1, h.1⟩

/-- A candidate that was collected and is of the expected shape is judged. -/
theorem judge_run {candidate : Tensor} {told : Option Shape × ElementType} {bytes : Bytes}
    (hexpects : a.Expects fs f.case expected) (he : expected.Representable)
    (hkind : expected.elementType = .f32) (hcollected : a.Collected fs f.case told bytes)
    (hdelivers : a.format.Delivers expected bytes candidate)
    (hshape : expected.shape = candidate.shape) (s : Setup) (kind : InferenceType)
    (compiled : Compiled) (comparison : Comparison) :
    ∃ verdict, (f.judge s a kind compiled comparison).run fs = (.ok verdict, fs) ∧
      ∀ id count, CaseReport.hasPassed ⟨id, verdict, count⟩ = false ↔
        f.FoundExact s expected candidate := by
  have hpair := Area.loadPair_iff hexpects he hkind hcollected
    ⟨expected, candidate, sha256Hex bytes⟩
  exact judge_of_pair (hpair.mpr ⟨rfl, hdelivers, rfl⟩).1 hshape s kind compiled comparison

variable {σ : Type}

/-- A fixture is run as its trial is, on an empty ledger. -/
theorem run_run (f : Fixture) (s : Setup) (j : Journal) (l : Launcher σ) (b : Bench σ) :
    (f.run s j l).run b =
      (((f.trial s j l).run { b with ledger := [] }).1.map fun verdict =>
          ⟨f.id, verdict, ((f.trial s j l).run { b with ledger := [] }).2.ledger.length⟩,
        ((f.trial s j l).run { b with ledger := [] }).2) := by
  change (f.trial s j l >>= _).run { b with ledger := [] } = _
  rw [run_bind]
  rcases (f.trial s j l).run { b with ledger := [] } with ⟨_ | _, _⟩ <;> rfl

end Fixture

end NetTrial
