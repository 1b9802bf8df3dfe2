import NetTrial.Proofs.FeasibleTrials
/-!
# The verdict of a trial

A trial that was staged goes on through two launches and two comparisons, which hand over files
and records only. It comes to a report exactly when both tools ended well and left what they were
asked for, and the candidate that the runtime delivered is near to the reference; then the case
has failed only if the candidate was to be inexact and is not.
-/

namespace NetTrial

open NetTrial.Path Text Digest NetTrial.Action

namespace Area

variable {a : Area} {fs fs' : Files} {case : String} {j : Journal}

/-- A tensor that was saved as what is expected is expected. -/
theorem expects_of_saveTensor {t : Tensor} {path : String} (hj : j.path = none)
    (ht : t.Representable)
    (h : (a.saveTensor j case .expected t).run fs = (.ok path, fs')) : a.Expects fs' case t := by
  rw [Area.saveTensor_silent hj] at h
  rcases a.stageTensor_ends case .expected t fs with
    ⟨e, he⟩ | ⟨bytes, r, fs₁, hc, hb, hrun, hends⟩
  · rw [he] at h
    cases h
  · rw [hrun] at h
    cases hends with
    | refused _ => cases h
    | unrecorded _ _ => cases h
    | @recorded written m hstored hlist =>
      cases h
      have hn := a.isName_tensorFile (checkCase_ok hc).1 .expected
      refine ⟨hc, withManifest_stands hlist hstored.stands _, hstored.admits hn,
        m.record (a.entryOf case .expected t bytes), bytes, ?_, ?_, hb, ?_⟩
      · exact withManifest_lists hlist hstored.stands
          (hlist.fits.record (fits_entryOf ht.dims bytes))
      · exact m.tensor?_record _
      · rw [withManifest_get?, if_neg, hstored.get?_location]
        exact a.location_tensorPath_ne_fixed manifest_fixed case .expected

/-! ## Launches that end well -/

variable {σ : Type} {l : Launcher σ} {tools : Toolchain} {b b' : Bench σ}

/-- The tool and the exit code of every launch on a ledger. -/
def exits (ledger : Ledger) : List (ToolKind × Option Int) :=
  ledger.map fun e => (e.tool, e.exitCode)

theorem succeeds_iff {r : Request} {note : String} :
    Succeeds l r note b ↔ (Event.of r (b.launch l r note).1 note).exitCode = some 0 := by
  rw [Succeeds]
  cases (b.launch l r note).1 with
  | error e => simp [Event.of]
  | ok outcome => simp [Event.of, Outcome.success]

theorem exits_launch (l : Launcher σ) (r : Request) (note : String) (b : Bench σ) :
    exits (b.launch l r note).2.ledger =
      exits b.ledger ++ [(r.tool, (Event.of r (b.launch l r note).1 note).exitCode)] := by
  rw [launch_ledger, exits, List.map_append]
  rfl

/-- What a compilation that ended well leaves: a launch on the ledger, the artifact, and what was
expected of a case. -/
theorem Compiling.made_spec {o : CompileOptions} {compiled : Compiled} {expected : Tensor}
    (h : a.Compiling l tools.compiler o b (.ok compiled) b') (hl : l.KeepsTo tools a.root)
    (hexpects : a.Expects b.files case expected) :
    (∃ prepared fs, (a.prepareCompile tools.compiler o).run b.files = (.ok prepared, fs)) ∧
      exits b'.ledger = exits b.ledger ++ [(.compiler, some 0)] ∧
      b'.files.isFile a.artifactPath = true ∧ a.Expects b'.files case expected := by
  have hspares := h.spares hl
  cases h with
  | made hp hsucceeds hread =>
    refine ⟨⟨_, _, hp⟩, ?_, ?_, ?_⟩
    · rw [exits_launch, (succeeds_iff).mp hsucceeds]
      have hrequest := ((a.prepareCompile_ends _ o _).of_ok hp).1
      dsimp only at hrequest
      rw [hrequest]
      rfl
    · exact Files.isFile_iff.mpr ⟨_, hread⟩
    · refine hexpects.of_spares hspares a.artifactSpot_ne_manifestSpot.symm ?_
      exact a.location_tensorPath_ne_fixed artifact_fixed case .expected

/-- What an inference that ended well leaves: a launch on the ledger, the candidate on record, and
what was there of artifact and expected tensor. -/
theorem Inferring.recorded_spec {o : InferOptions} {path : String} {expected : Tensor}
    (h : a.Inferring l tools.runtime case o b (.ok path) b') (hl : l.KeepsTo tools a.root)
    (hexpects : a.Expects b.files case expected) :
    exits b'.ledger = exits b.ledger ++ [(.runtime, some 0)] ∧
      (b.files.isFile a.artifactPath = true → b'.files.isFile a.artifactPath = true) ∧
      a.Expects b'.files case expected ∧ ∃ told bytes, a.Collected b'.files case told bytes := by
  have hspares := h.spares hl
  have hname := (checkCase_ok hexpects.case_ok).1
  cases h with
  | recorded hp hsucceeds hrecord =>
    have hlaunched := ((a.prepareInfer_ends _ case o _).of_ok hp).2.2.2.1.1.trans
      (hl.runtime b.tools rfl hp).spares
    refine ⟨?_, fun hartifact => ?_, ?_, ?_⟩
    · dsimp only
      rw [exits_launch, (succeeds_iff).mp hsucceeds, ((a.prepareInfer_ends _ case o _).of_ok hp).1]
      rfl
    · rw [artifactPath_eq, Files.isFile_join_iff isName_artifact] at hartifact ⊢
      obtain ⟨hs, hadmits, bytes, hf⟩ := hartifact
      refine ⟨hspares.stands hs, hadmits, bytes, (hspares.file _ ?_ bytes).mpr hf⟩
      rintro (he | he)
      · exact a.candidateSpot_ne_artifactSpot case he.symm
      · exact a.artifactSpot_ne_manifestSpot he
    all_goals
      have hbefore :
          a.Expects (Bench.launch l _ case { b with files := _ }).2.files case expected :=
        hexpects.of_spares hlaunched (a.candidateSpot_ne_manifestSpot case).symm
          (a.tensorPath_ne_candidateSpot hname nofun)
      rcases a.recordExternal_ends case .candidate .f32 _ with
        ⟨_, he⟩ | ⟨bytes, told, m, hc, hr, hd, hs, hm, ho⟩
      · rw [he] at hrecord
        cases hrecord
      rw [ho] at hrecord
      cases hrecord
    · exact hbefore.record hm (fits_externalEntry hd bytes) fun h => by cases h.2
    · exact ⟨told, bytes, collected_of_record hc hs hm hd hr⟩

/-- A compilation that failed launched the compiler once at most. -/
theorem Compiling.exits_of_error {o : CompileOptions} {e : Failure}
    (h : a.Compiling l tools.compiler o b (.error e) b') :
    (exits b'.ledger).length ≤ (exits b.ledger).length + 1 := by
  cases h with
  | refused | unread _ => exact Nat.le_succ _
  | failed _ =>
    rw [exits_launch, List.length_append]
    exact Nat.le_refl _

/-- An inference that failed although the runtime ended well left nothing that could be recorded
as a candidate. -/
theorem Inferring.unreadable_of_error {o : InferOptions} {e : Failure} {expected : Tensor}
    (h : a.Inferring l tools.runtime case o b (.error e) b') (hl : l.KeepsTo tools a.root)
    (hexpects : a.Expects b.files case expected)
    (hexits : exits b'.ledger = exits b.ledger ++ [(.runtime, some 0)]) {bytes : Bytes}
    (hr : b'.files.read (a.tensorPath case .candidate) = .ok bytes)
    {told : Option Shape × ElementType} :
    a.describe (a.tensorPath case .candidate) bytes .f32 ≠ .ok told := by
  have hafter : a.Expects b'.files case expected :=
    hexpects.of_spares (h.spares_of_error hl) (a.candidateSpot_ne_manifestSpot case).symm
      (a.tensorPath_ne_candidateSpot (checkCase_ok hexpects.case_ok).1 nofun)
  cases h with
  | refused | unread _ => exact absurd hexits (by simp)
  | failed hp hnot =>
    rw [exits_launch, List.append_cancel_left_eq] at hexits
    simp only [List.cons.injEq, Prod.mk.injEq, and_true] at hexits
    exact absurd ⟨(succeeds_iff).mpr hexits.2, Files.isFile_iff.mpr ⟨bytes, hr⟩⟩ hnot
  | unrecorded hp hrecord =>
    intro hd
    obtain ⟨m, -, hlist, -⟩ := hafter.staged
    rw [recordExternal_run hexpects.case_ok hr hd, updateManifest_of_lists hlist hafter.stands]
      at hrecord
    cases hrecord

end Area

namespace Fixture

variable {f : Fixture} {s : Setup} {j : Journal} {a : Area} {fs fs' : Files} {expected : Tensor}

/-- Staging what is expected of a case ends with saving what the evaluator gives. -/
theorem stageExpected_ends (hj : j.path = none) (e : Evaluator) (a : Area) (case : String)
    (source : ModelSource) {serialized : Bytes} (hs : source.serialized = .ok serialized)
    (input : Tensor) (fs : Files) :
    (e.stageExpected a j case source input).Ends fs (fun _ _ => True) fun t fs' =>
      e.evaluate serialized input = .ok t ∧
        ∃ path before, (a.saveTensor j case .expected t).run before = (.ok path, fs') := by
  obtain ⟨refer, hrefer, hparts⟩ := stageExpected_parts e a j case source input
  rw [hparts]
  refine ends_guard (fun _ => trivial) fun _ => ?_
  refine .bind ⟨fun _ => trivial, fun {_ fs₁} _ => ?_⟩
  refine .bind ⟨fun _ => trivial, fun {t fs₂} hlog => ?_⟩
  refine .bind ⟨fun _ => trivial, fun {path fs₃} hsave => ends_pure ⟨?_, path, fs₂, hsave⟩⟩
  refine evaluated_eq_ok hs (?_ : (evaluated e source input).run fs₁ = (.ok t, fs₂))
  rw [← hlog]
  exact ((j.logged_run case "reference" hrefer fs₁).silent hj).symm

/-- A fixture that was staged has its reference output staged, in the area that its options ask
for. -/
theorem stage_ends (hj : j.path = none) (f : Fixture) (s : Setup) (fs : Files) :
    (f.stage s j).Ends fs (fun _ _ => True) fun a fs' =>
      (∃ o, f.inferOptions = .ok o ∧ a = s.area f o.datasetFormat) ∧
        ∃ t path before, f.reference = .ok t ∧
          (a.saveTensor j f.case .expected t).run before = (.ok path, fs') := by
  rw [stage]
  refine .bind (ends_settle (fun _ _ => trivial) fun _ _ => ?_)
  refine .bind (ends_settle (fun _ _ => trivial) fun o ho => ?_)
  refine .bind ⟨fun _ => trivial, fun {_ cleared} _ => ?_⟩
  refine .bind ⟨fun _ => trivial, fun {_ modelled} _ => ?_⟩
  refine .bind (ends_settle (fun _ _ => trivial) fun input hinput => ?_)
  refine .bind ((stageExpected_ends hj evaluator _ f.case f.model.source rfl input
    modelled).mono (fun _ _ h => h) ?_)
  rintro t fs' ⟨heval, path, before, hsave⟩
  refine ends_pure ⟨⟨o, ho, rfl⟩, t, path, before, ?_, hsave⟩
  rw [reference, hinput]
  exact heval

theorem expects_of_stage (hj : j.path = none) (h : (f.stage s j).run fs = (.ok a, fs'))
    (href : f.reference = .ok expected) (he : expected.Representable) :
    (∃ o, f.inferOptions = .ok o ∧ a = s.area f o.datasetFormat) ∧
      a.Expects fs' f.case expected := by
  obtain ⟨harea, t, path, before, ht, hsave⟩ := (stage_ends hj f s fs).of_ok h
  rw [href] at ht
  cases ht
  exact ⟨harea, Area.expects_of_saveTensor hj he hsave⟩

/-- A reference output that is not empty and whose bytes can be numbered can be held. -/
theorem reference_representable (h : f.reference = .ok expected) (hne : expected.length ≠ 0)
    (hbytes : 4 * expected.length < wordLimit) :
    expected.Representable ∧ expected.elementType = .f32 := by
  have hgives : Gives f.reference Tensor.OfWords := by
    rw [reference]
    exact gives_bind fun input => evaluator_gives _ input
  have hwords := hgives.of_ok h
  exact ⟨hwords.representable hne hbytes, hwords.kind⟩

/-! ## The verdict -/

variable {σ : Type} {l : Launcher σ} {b : Bench σ}

/-- What is left of a trial that was staged, without a journal. -/
def proceed (f : Fixture) (s : Setup) (l : Launcher σ) (a : Area) (o : CompileOptions)
    (o' : InferOptions) : Action (Bench σ) Verdict := do
  let compiled ← a.compileStaged l s.tools.compiler o
  let _ ← a.inferStaged l s.tools.runtime f.case o'
  let comparison ← (a.compareStaged f.case f.tolerance).onBench
  (f.judge s a o.inferenceType compiled comparison).onBench

/-- What can be seen of a trial that went well: the options are fit for the compiler, each tool was
launched once and ended well, the artifact is there, and a candidate was delivered that is near to
what is expected. -/
structure Accomplished (f : Fixture) (s : Setup) (a : Area) (o : CompileOptions) (fs : Files)
    (out : Bench σ) (expected candidate : Tensor) : Prop where
  /-- The compilation could be prepared. -/
  admitted : ∃ prepared checked,
    (a.prepareCompile s.tools.compiler o).run fs = (.ok prepared, checked)
  /-- Two tools were launched and ended well. -/
  launched : Area.exits out.ledger = [(.compiler, some 0), (.runtime, some 0)]
  /-- There is an artifact. -/
  artifact : out.files.isFile a.artifactPath = true
  /-- A candidate was delivered. -/
  delivered : ∃ bytes, out.files.read (a.tensorPath f.case .candidate) = .ok bytes ∧
    a.format.Delivers expected bytes candidate
  /-- The tolerance is one. -/
  tolerance : f.tolerance.IsTolerance
  /-- The candidate is near. -/
  near : f.tolerance.Near expected candidate

section

variable (o : CompileOptions) (o' : InferOptions) (hl : l.KeepsTo s.tools a.root)
  (he : expected.Representable) (hkind : expected.elementType = .f32)
  (hledger : b.ledger = []) (hexpects : a.Expects b.files f.case expected)

include hl he hkind hledger hexpects

/-- A trial that comes to a verdict was accomplished. -/
theorem proceed_ends : (f.proceed s l a o o').Ends b (fun _ _ => True) fun verdict out =>
    ∃ candidate, f.Accomplished s a o b.files out expected candidate ∧
      ∀ id count, CaseReport.hasPassed ⟨id, verdict, count⟩ = false ↔
        f.FoundExact s expected candidate := by
  rw [proceed]
  refine .bind ⟨fun _ => trivial, fun {compiled b₁} hcompile => ?_⟩
  have hcompiling := a.compileStaged_ends l s.tools.compiler o b
  rw [hcompile] at hcompiling
  obtain ⟨hprepared, hexits₁, hartifact, hexpects₁⟩ := hcompiling.made_spec hl hexpects
  refine .bind ⟨fun _ => trivial, fun {path b₂} hinfer => ?_⟩
  have hinferring := a.inferStaged_ends l s.tools.runtime f.case o' b₁
  rw [hinfer] at hinferring
  obtain ⟨hexits₂, hkept, hexpects₂, told, bytes, hcollected⟩ :=
    hinferring.recorded_spec hl hexpects₁
  refine .bind (.onBench ⟨fun _ => trivial, fun {comparison fs₃} hclose => ?_⟩)
  obtain rfl := (Area.compareStaged_eq_ok.mp hclose).1
  obtain ⟨ht, candidate, hdelivers, hnear⟩ :=
    (Area.compareStaged_iff hexpects₂ he hkind hcollected).mp ⟨comparison, hclose⟩
  obtain ⟨verdict, hjudge, hverdict⟩ := judge_run hexpects₂ he hkind hcollected hdelivers
    hnear.shape s o.inferenceType compiled comparison
  refine .onBench (ends_ok hjudge
    ⟨candidate, ⟨hprepared, ?_, hkept hartifact, ?_, ht, hnear⟩, hverdict⟩)
  · dsimp only
    rw [hexits₂, hexits₁, hledger]
    rfl
  · exact ⟨bytes, hcollected.file, hdelivers⟩

/-- A trial that was accomplished comes to a verdict. -/
theorem proceed_of_accomplished {candidate : Tensor}
    (h : f.Accomplished s a o b.files ((f.proceed s l a o o').run b).2 expected candidate) :
    ∃ verdict, ((f.proceed s l a o o').run b).1 = .ok verdict := by
  obtain ⟨bytes, hread, hdelivers⟩ := h.delivered
  obtain ⟨told, hd⟩ := Area.describe_of_delivers hdelivers (a.tensorPath f.case .candidate)
  have hcompiling := a.compileStaged_ends l s.tools.compiler o b
  rcases hcompile : (a.compileStaged l s.tools.compiler o).run b with ⟨e | compiled, b₁⟩
  · rw [hcompile] at hcompiling
    have hlength := hcompiling.exits_of_error
    have hlaunched := h.launched
    rw [proceed, run_bind_of_error hcompile] at hlaunched
    dsimp only at hlaunched hlength
    rw [hlaunched, hledger] at hlength
    exact absurd hlength (by decide)
  rw [hcompile] at hcompiling
  obtain ⟨-, hexits₁, -, hexpects₁⟩ := hcompiling.made_spec hl hexpects
  have hinferring := a.inferStaged_ends l s.tools.runtime f.case o' b₁
  rcases hinfer : (a.inferStaged l s.tools.runtime f.case o').run b₁ with ⟨e | path, b₂⟩
  · rw [hinfer] at hinferring
    have hrun : (f.proceed s l a o o').run b = (.error e, b₂) := by
      rw [proceed, run_bind_of_ok hcompile, run_bind_of_error hinfer]
    have hlaunched := h.launched
    rw [hrun] at hlaunched hread
    refine absurd hd (hinferring.unreadable_of_error hl hexpects₁ ?_ hread)
    rw [hexits₁, hledger]
    exact hlaunched
  rw [hinfer] at hinferring
  obtain ⟨-, -, hexpects₂, told', bytes', hcollected⟩ := hinferring.recorded_spec hl hexpects₁
  have hsame := a.compareStaged_files f.case f.tolerance b₂.files
  rcases hclose : (a.compareStaged f.case f.tolerance).run b₂.files with ⟨r, fs₃⟩
  rw [hclose] at hsame
  obtain rfl : fs₃ = b₂.files := hsame
  have hbench :
      ((a.compareStaged f.case f.tolerance).onBench : Action (Bench σ) Comparison).run b₂ =
        (r, b₂) := by
    rw [run_onBench, hclose]
  cases r with
  | error e =>
    have hrun : (f.proceed s l a o o').run b = (.error e, b₂) := by
      rw [proceed, run_bind_of_ok hcompile, run_bind_of_ok hinfer, run_bind_of_error hbench]
    rw [hrun, hcollected.file] at hread
    cases hread
    obtain ⟨comparison, hok⟩ := (Area.compareStaged_iff hexpects₂ he hkind hcollected).mpr
      ⟨h.tolerance, candidate, hdelivers, h.near⟩
    rw [hclose] at hok
    cases hok
  | ok comparison =>
    obtain ⟨-, found, hfound, hnear⟩ :=
      (Area.compareStaged_iff hexpects₂ he hkind hcollected).mp ⟨comparison, hclose⟩
    obtain ⟨verdict, hjudge, -⟩ := judge_run hexpects₂ he hkind hcollected hfound hnear.shape s
      o.inferenceType compiled comparison
    refine ⟨verdict, ?_⟩
    rw [proceed, run_bind_of_ok hcompile, run_bind_of_ok hinfer, run_bind_of_ok hbench,
      run_onBench, hjudge]

end

/-- A trial whose options can be read and whose fixture can be staged goes on from there. -/
theorem run_of_staged (hj : j.path = none) {o : CompileOptions} (ho : f.compileOptions = .ok o)
    {o' : InferOptions} (ho' : f.inferOptions = .ok o')
    (hstage : (f.stage s j).run b.files = (.ok a, fs)) :
    ∃ b₀ : Bench σ, b₀.files = fs ∧ b₀.ledger = [] ∧ (f.run s j l).run b =
      (((f.proceed s l a (f.calibrated a o) o').run b₀).1.map fun verdict =>
          ⟨f.id, verdict, ((f.proceed s l a (f.calibrated a o) o').run b₀).2.ledger.length⟩,
        ((f.proceed s l a (f.calibrated a o) o').run b₀).2) := by
  refine ⟨{ b with files := fs, ledger := [] }, rfl, rfl, ?_⟩
  have hstaged : ((f.stage s j).onBench : Action (Bench σ) Area).run { b with ledger := [] } =
      (.ok a, { b with files := fs, ledger := [] }) := by
    rw [run_onBench, hstage]
  have htrial : (f.trial s j l).run { b with ledger := [] } =
      (f.proceed s l a (f.calibrated a o) o').run { b with files := fs, ledger := [] } := by
    rw [trial, run_settle_bind, ho]
    simp only
    rw [run_settle_bind, ho']
    simp only
    rw [run_bind_of_ok hstaged, Area.compile_silent hj, Area.infer_silent hj,
      Area.closeTo_silent hj]
    rfl
  rw [run_run, htrial]

/-- There is no report when the compiler options cannot be read. -/
theorem run_of_unread {e : Failure} (he : f.compileOptions = .error e) (s : Setup) (j : Journal)
    (l : Launcher σ) (b : Bench σ) : ((f.run s j l).run b).1 = .error e := by
  rw [run_run, trial, run_settle_bind, he]
  rfl

/-- A staged fixture whose reference output is not empty is reported on exactly when its trial was
accomplished: its options fit, each tool was launched once, ended well and left its output, and
what the runtime delivered is near to the reference output. The report says that the case failed
exactly when the candidate should have been inexact and every error is zero. -/
theorem run_ok_iff_accomplished (hj : j.path = none)
    (hstage : (f.stage s j).run b.files = (.ok a, fs)) (hl : l.KeepsTo s.tools a.root)
    (href : f.reference = .ok expected) (hne : expected.length ≠ 0)
    (hbytes : 4 * expected.length < wordLimit) :
    (∀ report, ((f.run s j l).run b).1 = .ok report → ∃ o candidate,
      f.compileOptions = .ok o ∧
      f.Accomplished s a (f.calibrated a o) fs ((f.run s j l).run b).2 expected candidate ∧
      (report.hasPassed = false ↔ f.FoundExact s expected candidate)) ∧
    (∀ o candidate, f.compileOptions = .ok o →
      f.Accomplished s a (f.calibrated a o) fs ((f.run s j l).run b).2 expected candidate →
      ∃ report, ((f.run s j l).run b).1 = .ok report) := by
  obtain ⟨he, hkind⟩ := reference_representable href hne hbytes
  obtain ⟨⟨o', ho', -⟩, hexpects⟩ := expects_of_stage hj hstage href he
  constructor
  · intro report hreport
    cases ho : f.compileOptions with
    | error e =>
      rw [run_of_unread ho] at hreport
      cases hreport
    | ok o =>
      obtain ⟨b₀, rfl, hledger, hrun⟩ := run_of_staged (l := l) hj ho ho' hstage
      rw [hrun] at hreport ⊢
      have hends :=
        proceed_ends (f := f) (f.calibrated a o) o' hl he hkind hledger hexpects
      rcases hproceed : (f.proceed s l a (f.calibrated a o) o').run b₀ with ⟨e | verdict, out⟩
      · rw [hproceed] at hreport
        cases hreport
      · rw [hproceed] at hreport
        cases hreport
        obtain ⟨candidate, haccomplished, hverdict⟩ := hends.of_ok hproceed
        exact ⟨o, candidate, rfl, haccomplished, hverdict _ _⟩
  · intro o candidate ho haccomplished
    obtain ⟨b₀, rfl, hledger, hrun⟩ := run_of_staged (l := l) hj ho ho' hstage
    rw [hrun] at haccomplished ⊢
    obtain ⟨verdict, hverdict⟩ :=
      proceed_of_accomplished _ _ hl he hkind hledger hexpects haccomplished
    exact ⟨_, by rw [hverdict]; rfl⟩

/-- A fixture that is reported on was staged. -/
theorem staged_of_run {report : CaseReport} (h : ((f.run s j l).run b).1 = .ok report) :
    ∃ a fs, (f.stage s j).run b.files = (.ok a, fs) := by
  obtain ⟨verdict, t, htrial, -⟩ := run_bind_eq_ok.mp (Prod.ext h rfl :
    (f.trial s j l >>= _).run { b with ledger := [] } = (.ok report, ((f.run s j l).run b).2))
  rw [trial, run_settle_bind] at htrial
  cases ho : f.compileOptions with
  | error e =>
    rw [ho] at htrial
    cases htrial
  | ok o =>
    simp only [ho] at htrial
    rw [run_settle_bind] at htrial
    cases ho' : f.inferOptions with
    | error e =>
      rw [ho'] at htrial
      cases htrial
    | ok o' =>
      simp only [ho'] at htrial
      obtain ⟨a, b', hstaged, -⟩ := run_bind_eq_ok.mp htrial
      rw [run_onBench] at hstaged
      have hok := congrArg Prod.fst hstaged
      exact ⟨a, _, Prod.ext hok rfl⟩

/-! ## A trial -/

/-- A model without operations on a single word. -/
def idleModel : Graph.Model := ⟨1, ⟨[1, 1, 1, 1], .f32⟩, []⟩

/-- The trial of a model without operations on the number one. -/
def idle : Fixture where
  id := "idle"
  case := "case"
  model := idleModel
  inputShape := [1, 1, 1, 1]
  inputValues := some [⟨0x3f800000⟩]
  compileArgs := []
  inferArgs := []
  tolerance := .zero
  expectInexact := true

/-- A setup with rehearsed tools. -/
def rehearsalSetup : Setup where
  workRoot := "w"
  fixtureRoot := "f"
  tools := ⟨⟨"ncc", []⟩, ⟨"ncc", []⟩⟩

/-- The tools write an artifact and the number one. -/
def idleBench : Bench (List Answer) :=
  ⟨.empty, [⟨some [0], 0⟩, ⟨some [0, 0, 0x80, 0x3f], 0⟩], []⟩

/-- The directory of the trial. -/
def idleArea : Area := rehearsalSetup.area idle .raw

/-- The number one in the shape of the input. -/
def idleTensor : Tensor := ⟨[1, 1, 1, 1], .f32 [⟨0x3f800000⟩]⟩

/-- The files after a first clearing. -/
def idleCleared : Files := (idleArea.reset.run .empty).2

theorem idle_reset : idleArea.reset.run .empty = (.ok (), idleCleared) := by rfl

theorem idle_vacant : idleArea.Vacant idleCleared :=
  Area.vacant_of_empty (by decide) idle_reset

set_option maxRecDepth 10000 in
theorem idle_reference : idle.reference.toOption = some idleTensor := by
  decide +kernel

theorem idle_feasible : idle.Feasible rehearsalSetup idleArea {} {} idleTensor idleTensor where
  id := rfl
  compileOptions := rfl
  inferOptions := rfl
  area := rfl
  case_ok := rfl
  fixed := by decide
  tensors role := by cases role <;> rfl
  format := rfl
  plain := rfl
  dataset := rfl
  given := rfl
  accepted := rfl
  fits := (by decide : ∀ d ∈ idleTensor.shape, d < wordLimit)
  inputBytes := ⟨_, rfl⟩
  reference := ok_of_toOption idle_reference
  representable := ⟨rfl, by decide, by decide⟩
  words := rfl
  expectedBytes := ⟨_, rfl⟩

/-- With any journal that can be continued the trial comes to a report, and does not pass. -/
theorem idle_run {j : Journal} {opened : Files → Prop} (hj : j.Attended idleArea.root opened)
    (hfirst : j.Continues idleArea.root opened idleCleared) :
    ∃ report, ((idle.run rehearsalSetup j .rehearsed).run idleBench).1 = .ok report ∧
      report.hasPassed = false := by
  have hdelivers : idleArea.format.Delivers idleTensor [0, 0, 0x80, 0x3f] idleTensor := ⟨rfl, rfl⟩
  have hnear : Double.zero.Near idleTensor idleTensor := (near_zero_iff rfl).mpr (by decide)
  obtain ⟨report, hreport, hexact⟩ := idle_feasible.run (b := idleBench) hj idle_reset idle_vacant
    hfirst rfl rfl (Launcher.rehearsed_answers ⟨some [0], 0⟩ _)
    (fun _ ht => ht ▸ Launcher.rehearsed_answers _ _) hdelivers Double.isTolerance_zero hnear
  exact ⟨report, hreport, hexact.mpr ⟨rfl, rfl, by decide⟩⟩

/-- The trial is accomplished, and its case fails for being exact. -/
theorem idle_accomplished : ∃ (a : Area) (fs : Files) (o : CompileOptions) (candidate : Tensor)
    (report : CaseReport),
    ((idle.run rehearsalSetup {} .rehearsed).run idleBench).1 = .ok report ∧
    idle.Accomplished rehearsalSetup a (idle.calibrated a o) fs
      ((idle.run rehearsalSetup {} .rehearsed).run idleBench).2
      ⟨[1, 1, 1, 1], .f32 [⟨0x3f800000⟩]⟩ candidate ∧
    idle.FoundExact rehearsalSetup ⟨[1, 1, 1, 1], .f32 [⟨0x3f800000⟩]⟩ candidate := by
  have hj : ({} : Journal).path = none := rfl
  obtain ⟨report, hrun, hfailed⟩ :=
    idle_run (Journal.attended_of_silent hj _) (Journal.continues_of_silent hj _ _)
  obtain ⟨a, fs, hstage⟩ := staged_of_run hrun
  obtain ⟨o, candidate, -, haccomplished, hverdict⟩ := (run_ok_iff_accomplished
    (f := idle) (s := rehearsalSetup) (l := .rehearsed) (b := idleBench) rfl hstage
    (Launcher.rehearsed_keepsTo rfl rfl a.root) (ok_of_toOption idle_reference) (by decide)
    (by decide)).1 report hrun
  exact ⟨a, fs, o, candidate, report, hrun, haccomplished, hverdict.mp hfailed⟩

end Fixture

end NetTrial
