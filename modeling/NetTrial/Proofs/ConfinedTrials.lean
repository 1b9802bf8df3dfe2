import NetTrial.Proofs.BareTrials
import NetTrial.Proofs.Confinement
/-!
# Trials that keep to a directory

What a trial without a journal does in its area, once that is cleared, is confined to the
directory: staging, the two launches, and a comparison and a verdict that only read. So a trial
keeps what the changes in the directory and the launches keep.
-/

namespace NetTrial

open NetTrial.Path Text Digest NetTrial.Action

namespace Fixture

variable {σ : Type} {f : Fixture} {s : Setup} {a : Area} {fs : Files} {l : Launcher σ} {b : Bench σ}
  {keeps : Files → σ → Prop}

theorem evaluated_files (e : Evaluator) (source : ModelSource) (input : Tensor) (fs : Files) :
    ((evaluated e source input).run fs).2 = fs := by
  rw [evaluated, run_settle_bind]
  cases source.serialized.mapError Failure.modelInvalid <;> rfl

/-- Filling a standing area changes nothing elsewhere, and succeeds only for a case that names
files of its own. -/
theorem fill_ends (f : Fixture) (hs : fs.Stands a.root) :
    (f.fill a).Ends fs (fun _ fs' => fs.Within a.root fs')
      fun _ fs' => fs.Within a.root fs' ∧ '/' ∉ f.case.toList := by
  have hmodel := Area.stageModel_within hs f.model.source Area.isName_graph
  rw [fill]
  refine .bind ⟨fun hr => ?_, fun {_ fs₁} hr => ?_⟩
  · rw [hr] at hmodel
    exact hmodel
  rw [hr] at hmodel
  have hs₁ := hmodel.stands hs
  refine .bind (ends_settle (fun _ _ => hmodel) fun input _ => ?_)
  rw [Evaluator.expect]
  refine .bind (ends_guard (fun _ => hmodel) fun _ => ?_)
  refine .bind ((Area.stageTensor_ends_within hs₁ f.case .input input).mono
    (fun _ _ h => hmodel.trans h) ?_)
  rintro _ fs₂ ⟨hinput, hname⟩
  refine .bind ((ends_unchanged (evaluated_files evaluator f.model.source input fs₂)).mono ?_ ?_)
  · rintro _ _ rfl
    exact hmodel.trans hinput
  rintro expected _ rfl
  refine .bind ((Area.stageTensor_ends_within (hinput.stands hs₁) f.case .expected expected).mono
    (fun _ _ h => (hmodel.trans hinput).trans h) ?_)
  rintro _ fs₄ ⟨hexpected, -⟩
  exact ends_pure (ends_pure ⟨(hmodel.trans hinput).trans hexpected, hname⟩)

theorem isInexact_files (f : Fixture) (a : Area) (fs : Files) :
    ((f.isInexact a).run fs).2 = fs := by
  have hends : (f.isInexact a).Ends fs (fun _ fs' => fs' = fs) fun _ fs' => fs' = fs := by
    rw [isInexact]
    refine .bind ((a.loadPair_ends f.case fs).mono (fun _ _ h => h) ?_)
    rintro pair _ ⟨rfl, -⟩
    cases compareTensors f.case pair.expected pair.candidate .zero with
    | ok _ => exact ends_pure rfl
    | error cause => cases cause <;> first | exact ends_throw rfl | exact ends_pure rfl
  exact hends.left

theorem judge_files (f : Fixture) (s : Setup) (a : Area) (kind : InferenceType)
    (compiled : Compiled) (comparison : Comparison) (fs : Files) :
    ((f.judge s a kind compiled comparison).run fs).2 = fs := by
  have hends : (f.judge s a kind compiled comparison).Ends fs (fun _ fs' => fs' = fs)
      fun _ fs' => fs' = fs := by
    rw [judge]
    refine ends_ite (fun _ => .bind ((ends_unchanged (f.isInexact_files a fs)).mono
      (fun _ _ h => h) ?_)) fun _ => ends_pure rfl
    rintro inexact _ rfl
    exact ends_ite (fun _ => ends_pure rfl) fun _ => ends_pure rfl
  exact hends.left

/-- What is left of a trial keeps what endures. -/
theorem proceed_endures (o : CompileOptions) (o' : InferOptions) (he : l.Endures s.tools a keeps)
    (hc : '/' ∉ f.case.toList) (hb : keeps b.files b.tools) :
    keeps ((f.proceed s l a o o').run b).2.files ((f.proceed s l a o o').run b).2.tools := by
  have hends : (f.proceed s l a o o').Ends b (fun _ b' => keeps b'.files b'.tools)
      fun _ b' => keeps b'.files b'.tools := by
    rw [proceed]
    have hcompiling := a.compileStaged_ends l s.tools.compiler o b
    refine .bind ⟨fun hr => ?_, fun {compiled b₁} hr => ?_⟩
    · rw [hr] at hcompiling
      exact hcompiling.endures he hb
    rw [hr] at hcompiling
    have hb₁ := hcompiling.endures he hb
    have hinferring := a.inferStaged_ends l s.tools.runtime f.case o' b₁
    refine .bind ⟨fun hr => ?_, fun {path b₂} hr => ?_⟩
    · rw [hr] at hinferring
      exact hinferring.endures he hc hb₁
    rw [hr] at hinferring
    have hb₂ := hinferring.endures he hc hb₁
    refine .bind (.onBench ((ends_unchanged
      (a.compareStaged_files f.case f.tolerance b₂.files)).mono ?_ ?_))
    · rintro _ _ rfl
      exact hb₂
    rintro comparison _ rfl
    refine .onBench ((ends_unchanged
      (f.judge_files s a o.inferenceType compiled comparison _)).mono ?_ ?_)
    · rintro _ _ rfl
      exact hb₂
    · rintro _ _ rfl
      exact hb₂
  exact hends.left

/-- A trial that goes on from a cleared area keeps what endures. -/
theorem carryOn_endures (o : CompileOptions) (o' : InferOptions) (he : l.Endures s.tools a keeps)
    (hs : b.files.Stands a.root) (hb : keeps b.files b.tools) :
    keeps ((f.carryOn s l a o o').run b).2.files ((f.carryOn s l a o o').run b).2.tools := by
  have hfill := f.fill_ends hs
  rw [carryOn]
  rcases hr : (f.fill a).run b.files with ⟨e | _, fs⟩
  · rw [run_bind_of_error (by rw [run_onBench, hr])]
    exact he.within (hfill.of_error hr) hb
  · rw [run_bind_of_ok (by rw [run_onBench, hr])]
    obtain ⟨hwithin, hc⟩ := hfill.of_ok hr
    exact proceed_endures _ o' he hc (he.within hwithin hb)

end Fixture

end NetTrial
