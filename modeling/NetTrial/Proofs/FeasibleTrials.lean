import NetTrial.Proofs.AnsweredLaunches
import NetTrial.Proofs.TrialParts
/-!
# Trials that nothing stands in the way of

A fixture may ask for what can be done: options that call for nothing else than its model, and
tensors that its case and format have room for. When its area has been cleared and both tools
end well and deliver, its trial comes to a report as soon as the candidate is near to the
reference output. A journal that can be continued makes no difference.
-/

namespace NetTrial

open NetTrial.Path Text NetTrial.Action

namespace Fixture

/-- What a fixture asks for can be done in its area. -/
structure Feasible (f : Fixture) (s : Setup) (a : Area) (o : CompileOptions) (o' : InferOptions)
    (input expected : Tensor) : Prop where
  /-- The id names a directory. -/
  id : f.checkId = .ok ()
  /-- The options of the compiler can be read. -/
  compileOptions : f.compileOptions = .ok o
  /-- The options of the runtime can be read. -/
  inferOptions : f.inferOptions = .ok o'
  /-- The area is that of the fixture. -/
  area : a = s.area f o'.datasetFormat
  /-- The case may be staged. -/
  case_ok : Area.checkCase f.case = .ok ()
  /-- The paths of manifest, artifact and model can be spoken of. -/
  fixed : ∀ name ∈ Area.fixedNames, Files.admits a.root name = .ok ()
  /-- The paths of the tensors can be spoken of. -/
  tensors : ∀ role, Files.admits a.root (a.tensorFile f.case role) = .ok ()
  /-- The compiler is to read the model. -/
  format : o.inputFormat = f.model.source.format.name
  /-- Nothing is quantized. -/
  plain : o.requiresCalibration = false
  /-- No data is given. -/
  dataset : o.dataset = none
  /-- The input can be built. -/
  given : f.input = .ok input
  /-- The model takes it. -/
  accepted : evaluator.accepts f.model.source.signature input = true
  /-- Its dimensions are words. -/
  fits : input.shape.Fits
  /-- It can be written. -/
  inputBytes : ∃ bytes, a.fileBytes f.case .input input = .ok bytes
  /-- There is a reference output. -/
  reference : f.reference = .ok expected
  /-- It can be held. -/
  representable : expected.Representable
  /-- Its elements are words. -/
  words : expected.elementType = .f32
  /-- It can be written. -/
  expectedBytes : ∃ bytes, a.fileBytes f.case .expected expected = .ok bytes

variable {f : Fixture} {s : Setup} {a : Area} {o : CompileOptions} {o' : InferOptions}
  {input expected : Tensor} {j : Journal} {opened : Files → Prop} {fs : Files} {m : Manifest}
  {content : String → Option Bytes}

namespace Feasible

theorem offers (h : f.Feasible s a o o' input expected) (role : Role) :
    a.Offers (a.tensorFile f.case role) := Area.offers_tensorFile h.case_ok (h.tensors role)

theorem offers_graph (h : f.Feasible s a o o' input expected) : a.Offers Area.graphName :=
  ⟨Area.isName_graph, by decide, h.fixed _ Area.graph_fixed⟩

theorem calibrated (h : f.Feasible s a o o' input expected) : f.calibrated a o = o := by
  rw [Fixture.calibrated, h.plain]
  exact if_neg fun hasked => absurd hasked.1 (by decide)

/-- Input and reference output are staged in an area that holds the model. -/
theorem stageExpected (h : f.Feasible s a o o' input expected) (hj : j.Attended a.root opened)
    (hopen : opened fs) (hs : a.Stocked fs m content)
    (hmodel : m.model = some (Area.modelEntryOf f.model.source f.model.bytes))
    (hgraph : a.Stores content Area.graphName) :
    ∃ fs' m' content', (evaluator.stageExpected a j f.case f.model.source input).run fs =
        (.ok expected, fs') ∧ opened fs' ∧ a.Stocked fs' m' content' ∧
      a.Provides f.case f.model.source m' content' ∧
      a.Staged f.case .expected expected m' content' := by
  obtain ⟨inputBytes, hinput⟩ := h.inputBytes
  obtain ⟨expectedBytes, hexpected⟩ := h.expectedBytes
  have hevaluate : (evaluated evaluator f.model.source input).run =
      fun fs => (.ok expected, fs) := by
    have hreference := h.reference
    rw [Fixture.reference, h.given] at hreference
    funext fs
    exact congrArg (·, fs) hreference
  obtain ⟨refer, hrefer, hparts⟩ := stageExpected_parts evaluator a j f.case f.model.source input
  obtain ⟨path, fs₁, hsave, hopen₁, hs₁⟩ :=
    hs.saveTensor hj hopen h.case_ok hinput (h.tensors .input) h.fits
  have hcloses := j.logged_run f.case "reference" hrefer fs₁
  rw [hevaluate] at hcloses
  obtain ⟨fs₂, hlogged, hleaves, hopen₂⟩ := (hj.continues hopen₁).closes hcloses
  obtain ⟨path', fs₃, hsave', hopen₃, hs₃⟩ := (hs₁.of_leaves hleaves).saveTensor hj hopen₂
    h.case_ok hexpected (h.tensors .expected) h.representable.dims
  have hgraphName : ∀ role, Area.graphName ≠ a.tensorFile f.case role :=
    fun role => (a.tensorFile_ne_fixed Area.graph_fixed f.case role).symm
  have hfed := (h.offers .input).stores content inputBytes
  have hprovides : a.Provides f.case f.model.source
      (m.record (a.entryOf f.case .input input inputBytes))
      (Function.update content (a.tensorFile f.case .input) (some inputBytes)) :=
    ⟨⟨_, hmodel⟩, hgraph.update (hgraphName .input) _, ⟨_, a, m.tensor?_record _, rfl, hfed⟩, hfed⟩
  refine ⟨fs₃, _, _, ?_, hopen₃, hs₃, ?_, Area.staged_record hexpected _ _⟩
  · rw [hparts]
    simp only [h.accepted, Bool.not_true, Bool.false_eq_true, if_false]
    rw [run_bind_of_ok hsave, run_bind_of_ok hlogged, run_bind_of_ok hsave']
    rfl
  · refine (hprovides.record (by simp [Area.entryOf])).update (hgraphName .expected) ?_ _
    exact fun b he => absurd (Area.tensorFile_inj he).2.1 (by decide)

/-- A feasible trial is staged once its area has been cleared. -/
theorem stage (h : f.Feasible s a o o' input expected) (hj : j.Attended a.root opened)
    {cleared : Files} (hreset : a.reset.run fs = (.ok (), cleared)) (hv : a.Vacant cleared)
    (hfirst : j.Continues a.root opened cleared) :
    ∃ fs' m content, (f.stage s j).run fs = (.ok a, fs') ∧ opened fs' ∧ a.Stocked fs' m content ∧
      a.Provides f.case f.model.source m content ∧
      a.Staged f.case .expected expected m content := by
  have hcloses := a.clear_closes j fs
  rw [hreset] at hcloses
  obtain ⟨fs₁, hclear, hleaves, hopen₁⟩ := hfirst.closes hcloses
  have hs₁ := (hv.stocked (h.fixed _ Area.manifest_fixed)).of_leaves hleaves
  have hserialized : f.model.source.serialized = .ok f.model.bytes := rfl
  obtain ⟨path, fs₂, hmodel, hopen₂, hs₂⟩ :=
    hs₁.saveModel hj hopen₁ hserialized h.offers_graph
  obtain ⟨fs₃, m, content, hexpected, hopen₃, hs₃, hprovides, hstaged⟩ :=
    h.stageExpected hj hopen₂ hs₂ rfl (h.offers_graph.stores _ _)
  refine ⟨fs₃, m, content, ?_, hopen₃, hs₃, hprovides, hstaged⟩
  rw [Fixture.stage, run_settle_bind, h.id]
  simp only
  rw [run_settle_bind, h.inferOptions]
  simp only [← h.area]
  rw [run_bind_of_ok hclear, run_bind_of_ok hmodel, run_settle_bind, h.given]
  simp only
  rw [run_bind_of_ok hexpected]
  rfl

/-- What was staged can be compiled. -/
theorem compilable (h : f.Feasible s a o o' input expected)
    (hp : a.Provides f.case f.model.source m content) : a.Compilable o m content :=
  hp.compilable h.format (show Area.graphName ≠ Area.artifactName by decide) h.plain h.dataset
    (h.fixed _ Area.artifact_fixed)

/-- With an artifact, what was staged can be run. -/
theorem inferable (h : f.Feasible s a o o' input expected)
    (hp : a.Provides f.case f.model.source m content) (artifact : Bytes) :
    a.Inferable f.case o' m (Function.update content Area.artifactName (some artifact)) := by
  have hartifact := Area.offers_artifact (h.fixed _ Area.artifact_fixed)
  have hkept := hp.compile (show Area.graphName ≠ Area.artifactName by decide) (some artifact)
  refine hkept.inferable (hartifact.stores _ _) h.case_ok ?_ (h.tensors .candidate)
  rw [h.area]
  rfl

/-- What is expected is still there when a candidate is on record. -/
theorem paired (h : f.Feasible s a o o' input expected)
    (ht : a.Staged f.case .expected expected m content) (artifact : Bytes) {bytes : Bytes}
    {told : Option Shape × ElementType}
    (hd : a.describe (a.tensorPath f.case .candidate) bytes .f32 = .ok told)
    (hs : a.Stocked fs (m.record (a.externalEntry f.case .candidate told bytes))
      (Function.update (Function.update content Area.artifactName (some artifact))
        (a.tensorFile f.case .candidate) (some bytes))) :
    a.Expects fs f.case expected ∧ a.Collected fs f.case told bytes := by
  have hfixed := a.tensorFile_ne_fixed Area.artifact_fixed f.case .expected
  have hkept := (ht.update hfixed (some artifact)).collect bytes told
  exact ⟨hs.expects h.case_ok (h.tensors .expected) hkept, hs.collected h.case_ok
    (h.tensors .candidate) hd (m.tensor?_record _) (Function.update_self ..)⟩

end Feasible

/-! ## From the clearing to the report -/

variable {σ : Type} {l : Launcher σ} {b : Bench σ} {next next' : σ → Prop}

/-- A feasible trial comes to a report when its area can be cleared, the journal continued, and
both tools end well, with a candidate that is near to the reference output. The report fails the
case for nothing but being exact. -/
theorem Feasible.run (h : f.Feasible s a o o' input expected) (hj : j.Attended a.root opened)
    {cleared : Files} (hreset : a.reset.run b.files = (.ok (), cleared)) (hv : a.Vacant cleared)
    (hfirst : j.Continues a.root opened cleared) (hcompiler : s.tools.compiler.leading = [])
    (hruntime : s.tools.runtime.leading = []) {artifact bytes : Bytes}
    (hcompile : l.Answers b.tools ⟨some artifact, 0⟩ next)
    (hinfer : ∀ t, next t → l.Answers t ⟨some bytes, 0⟩ next') {candidate : Tensor}
    (hdelivers : a.format.Delivers expected bytes candidate) (ht : f.tolerance.IsTolerance)
    (hnear : f.tolerance.Near expected candidate) :
    ∃ report, ((f.run s j l).run b).1 = .ok report ∧
      (report.hasPassed = false ↔ f.FoundExact s expected candidate) := by
  obtain ⟨told, hd⟩ := Area.describe_of_delivers hdelivers (a.tensorPath f.case .candidate)
  obtain ⟨fs₁, m, content, hstage, hopen₁, hs₁, hp, hstaged⟩ := h.stage hj hreset hv hfirst
  obtain ⟨compiled, b₂, hcompiled, hnext, hopen₂, hs₂⟩ :=
    Area.Stocked.compile (b := { b with ledger := [], files := fs₁ }) hs₁ hj hopen₁
      (h.compilable hp) hcompiler hcompile
  obtain ⟨path, b₃, hinferred, -, hopen₃, hs₃⟩ :=
    hs₂.infer hj hopen₂ (h.inferable hp artifact) hruntime (hinfer _ hnext) hd
  obtain ⟨hexpects, hcollected⟩ := h.paired hstaged artifact hd hs₃
  obtain ⟨comparison, hcompared⟩ := (Area.compareStaged_iff hexpects h.representable h.words
    hcollected).mpr ⟨ht, candidate, hdelivers, hnear⟩
  have hcloses := a.closeTo_closes j f.case f.tolerance b₃.files
  rw [hcompared] at hcloses
  obtain ⟨fs₄, hclose, hleaves, -⟩ := (hj.continues hopen₃).closes hcloses
  -- the verdict reads the pair again, behind the line of the comparison
  obtain ⟨hexpects', hcollected'⟩ := h.paired hstaged artifact hd (hs₃.of_leaves hleaves)
  obtain ⟨verdict, hjudge, hverdict⟩ := judge_run hexpects' h.representable h.words hcollected'
    hdelivers hnear.shape s o.inferenceType compiled comparison
  have htrial : (f.trial s j l).run { b with ledger := [] } =
      (.ok verdict, { b₃ with files := fs₄ }) := by
    rw [trial, run_settle_bind, h.compileOptions]
    simp only
    rw [run_settle_bind, h.inferOptions]
    simp only
    rw [run_bind_of_ok (by rw [run_onBench, hstage]), h.calibrated, run_bind_of_ok hcompiled,
      run_bind_of_ok hinferred, run_bind_of_ok (by rw [run_onBench, hclose]), run_onBench, hjudge]
  exact ⟨_, by rw [run_run, htrial]; rfl, hverdict _ _⟩

end Fixture

end NetTrial
