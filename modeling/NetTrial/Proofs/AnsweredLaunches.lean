import NetTrial.Proofs.StockedAreas
/-!
# Launches that are answered

What a compilation or an inference needs is there or not, whatever else an area holds. When it is,
the invocation comes to its launch; and when a tool answers the launch, it is known how the
invocation ends and what it leaves: the area is stocked with what the tool delivered.
-/

namespace NetTrial

open NetTrial.Path Text Digest NetTrial.Action

namespace Area

variable {a : Area} {fs fs' : Files} {m : Manifest} {content : String → Option Bytes}
  {name : String} {bytes : Bytes}

/-! ## What an invocation needs -/

theorem checkCalibration_plain {o : CompileOptions} (hplain : o.requiresCalibration = false)
    (hdata : o.dataset = none) (fs : Files) (request : Request) :
    o.checkCalibration fs request = .ok () := by
  rw [CompileOptions.checkCalibration, hdata, hplain]
  rfl

theorem checkInputs_plain {o : CompileOptions} (hplain : o.requiresCalibration = false)
    (inputs : List TensorEntry) : o.checkInputs inputs = .ok () := by
  have hkind : o.inferenceType ≠ .uint8 := of_decide_eq_false hplain
  exact if_neg fun h => hkind h.1

/-- What a compilation asks for before it removes the last artifact: the model in the right format,
an input, and options that ask for nothing else. -/
structure Submitted (a : Area) (o : CompileOptions) (m : Manifest)
    (content : String → Option Bytes) : Prop where
  /-- The model is recorded and there. -/
  model : ∃ model, m.model = some model ∧ o.inputFormat = model.format ∧ a.Stores content model.file
  /-- An input is recorded and there. -/
  input : ∃ e ∈ m.tensors, e.role = .input ∧ a.Stores content e.file
  /-- Nothing is quantized. -/
  plain : o.requiresCalibration = false
  /-- No data is given. -/
  dataset : o.dataset = none
  /-- The artifact can be spoken of. -/
  artifact : Files.admits a.root artifactName = .ok ()

/-- What is there for a compilation. The model is not in place of the artifact. -/
structure Compilable (a : Area) (o : CompileOptions) (m : Manifest)
    (content : String → Option Bytes) : Prop extends Submitted a o m content where
  /-- The model outlives the removal. -/
  apart : ∀ model, m.model = some model → model.file ≠ artifactName

/-- What is there for an inference: the artifact, and the input in the format of the options. -/
structure Inferable (a : Area) (case : String) (o : InferOptions) (m : Manifest)
    (content : String → Option Bytes) : Prop where
  /-- The case may be staged. -/
  case_ok : checkCase case = .ok ()
  /-- The artifact is there. -/
  artifact : a.Stores content artifactName
  /-- The input is recorded and there. -/
  input : ∃ e, m.tensor? case .input = some e ∧ a.Stores content e.file
  /-- A file is where the runtime is told to read the input. -/
  fed : a.Stores content (a.tensorFile case .input)
  /-- The format is that of the area. -/
  format : o.datasetFormat = a.format
  /-- The candidate can be spoken of. -/
  candidate : Files.admits a.root (a.tensorFile case .candidate) = .ok ()

/-- A model and the input of a case are on record and there. The record may be of a format of its
own. -/
structure Provides (a : Area) (case : String) (source : ModelSource) (m : Manifest)
    (content : String → Option Bytes) : Prop where
  /-- The model is on record. -/
  model : ∃ bytes, m.model = some (modelEntryOf source bytes)
  /-- Its file is there. -/
  modelFile : a.Stores content (modelFile source.format)
  /-- An input is on record and there. -/
  fed : ∃ e b, m.tensor? case .input = some e ∧ e.file = tensorFile b case .input ∧
    a.Stores content e.file
  /-- A file is where the runtime is told to read the input. -/
  fedFile : a.Stores content (a.tensorFile case .input)

namespace Provides

variable {case : String} {source : ModelSource}

/-- Another record leaves them there. -/
theorem record (h : a.Provides case source m content) {e : TensorEntry}
    (hother : ¬ (e.case = case ∧ e.role = .input)) :
    a.Provides case source (m.record e) content := by
  obtain ⟨hmodel, hfile, ⟨found, b, hm, hnamed, hstores⟩, hfed⟩ := h
  refine ⟨hmodel, hfile, ⟨found, b, ?_, hnamed, hstores⟩, hfed⟩
  rw [m.tensor?_record_of_ne hother, hm]

/-- A change to another entry leaves them there. -/
theorem update (h : a.Provides case source m content) (hmodel : Area.modelFile source.format ≠ name)
    (hinput : ∀ b, tensorFile b case .input ≠ name) (value : Option Bytes) :
    a.Provides case source m (Function.update content name value) := by
  obtain ⟨hentry, hfile, ⟨found, b, hm, hnamed, hstores⟩, hfed⟩ := h
  exact ⟨hentry, hfile.update hmodel value,
    ⟨found, b, hm, hnamed, hstores.update (hnamed ▸ hinput b) value⟩, hfed.update (hinput a) value⟩

/-- They stay there when another tensor is staged or collected. -/
theorem enter (h : a.Provides case source m content) (hslot : ∀ c role,
      Area.modelFile source.format ≠ a.tensorFile c role) {e : TensorEntry} {role : Role}
    (hrole : e.role = role) (hother : role ≠ .input) (c : String) (value : Option Bytes) :
    a.Provides case source (m.record e)
      (Function.update content (a.tensorFile c role) value) := by
  have hrecorded := h.record fun hsame => hother (hrole ▸ hsame.2)
  refine hrecorded.update (hslot c role) (fun b hb => ?_) value
  exact hother (tensorFile_inj hb).2.1.symm

/-- They stay there when the artifact is written or removed. -/
theorem compile (h : a.Provides case source m content)
    (hne : Area.modelFile source.format ≠ artifactName) (value : Option Bytes) :
    a.Provides case source m (Function.update content artifactName value) :=
  h.update hne (fun b => b.tensorFile_ne_fixed artifact_fixed case .input) value

/-- They stay there when another input of the case is staged, in whatever format. -/
theorem restage (h : a.Provides case source m content) {b : Area}
    (hslot : Area.modelFile source.format ≠ tensorFile b case .input)
    (hoffers : a.Offers (tensorFile b case .input)) {e : TensorEntry} (hcase : e.case = case)
    (hrole : e.role = .input) (hfile : e.file = tensorFile b case .input) (bytes : Bytes) :
    a.Provides case source (m.record e)
      (Function.update content (tensorFile b case .input) (some bytes)) := by
  obtain ⟨hmodel, hstored, -, hfed⟩ := h
  have hnew := hoffers.stores content bytes
  refine ⟨hmodel, hstored.update hslot _, ⟨e, b, ?_, hfile, hfile ▸ hnew⟩, ?_⟩
  · rw [← hcase, ← hrole, m.tensor?_record]
  · by_cases hsame : a.tensorFile case .input = tensorFile b case .input
    · rw [hsame]
      exact hnew
    · exact hfed.update hsame _

/-- They can be compiled by options that ask for nothing else. -/
theorem submitted (h : a.Provides case source m content) {o : CompileOptions}
    (hformat : o.inputFormat = source.format.name) (hplain : o.requiresCalibration = false)
    (hdata : o.dataset = none) (ha : Files.admits a.root artifactName = .ok ()) :
    a.Submitted o m content := by
  obtain ⟨⟨bytes, hmodel⟩, hfile, ⟨e, b, hm, -, hstores⟩, -⟩ := h
  have hrole : e.role = .input := (isFor_iff.mp (List.find?_some hm)).2
  exact ⟨⟨_, hmodel, hformat, hfile⟩, ⟨e, List.mem_of_find?_eq_some hm, hrole, hstores⟩, hplain,
    hdata, ha⟩

theorem compilable (h : a.Provides case source m content) {o : CompileOptions}
    (hformat : o.inputFormat = source.format.name)
    (hne : Area.modelFile source.format ≠ artifactName) (hplain : o.requiresCalibration = false)
    (hdata : o.dataset = none) (ha : Files.admits a.root artifactName = .ok ()) :
    a.Compilable o m content := by
  refine ⟨h.submitted hformat hplain hdata ha, fun model hmodel => ?_⟩
  obtain ⟨bytes, hentry⟩ := h.model
  rw [hentry] at hmodel
  cases hmodel
  exact hne

/-- With an artifact they can be run. -/
theorem inferable (h : a.Provides case source m content) (hartifact : a.Stores content artifactName)
    {o : InferOptions} (hc : checkCase case = .ok ()) (hformat : o.datasetFormat = a.format)
    (ha : Files.admits a.root (a.tensorFile case .candidate) = .ok ()) :
    a.Inferable case o m content := by
  obtain ⟨-, -, ⟨e, b, hm, -, hstores⟩, hfed⟩ := h
  exact ⟨hc, hartifact, ⟨e, hm, hstores⟩, hfed, hformat, ha⟩

end Provides

namespace Stocked

theorem prepareCompile (h : a.Stocked fs m content) {o : CompileOptions}
    (hready : a.Submitted o m content) (c : ToolCommand) :
    ∃ model fs', m.model = some model ∧ a.Stores content model.file ∧
      (a.prepareCompile c o).run fs = (.ok (c.request .compiler
        (["compile", join a.root model.file, a.artifactPath] ++ o.toArgs) a.root,
          join a.root model.file), fs') ∧
      a.Stocked fs' m (Function.update content artifactName none) := by
  obtain ⟨model, hm, hformat, hmodel⟩ := hready.model
  obtain ⟨e, he, hrole, hinput⟩ := hready.input
  have hfound : a.model.run fs = (.ok (join a.root model.file, model.format), fs) := by
    rw [model_run h.lists, hm]
    simp only [h.isFile hmodel, if_true]
  have hinputs : (m.tensors.filter fun e => e.role == .input && a.holds fs e).isEmpty = false := by
    rw [List.isEmpty_eq_false_iff_exists_mem]
    refine ⟨e, List.mem_filter.mpr ⟨he, ?_⟩⟩
    rw [hrole, holds, h.isFile hinput]
    rfl
  obtain ⟨fs', hremove, hstocked⟩ := h.removeStale (offers_artifact hready.artifact)
  refine ⟨model, fs', hm, hmodel, ?_, hstocked⟩
  rw [Area.prepareCompile, run_bind_of_ok hfound, run_bind_of_ok (stagedInputs_run h.lists)]
  simp only [hinputs, Bool.false_eq_true, if_false, hformat, ne_eq, not_true_eq_false]
  rw [run_get_bind, run_settle_bind, checkCalibration_plain hready.plain hready.dataset]
  simp only
  rw [run_settle_bind, checkInputs_plain hready.plain]
  simp only
  rw [artifactPath_eq, run_bind_of_ok hremove]
  rfl

theorem prepareInfer (h : a.Stocked fs m content) {case : String} {o : InferOptions}
    (hready : a.Inferable case o m content) (c : ToolCommand) :
    ∃ fs', (a.prepareInfer c case o).run fs =
        (.ok (c.request .runtime (["infer", a.artifactPath, a.tensorPath case .candidate,
          "--dataset", a.tensorPath case .input] ++ o.toArgs) a.root), fs') ∧
      (∃ bytes, fs'.read (a.tensorPath case .input) = .ok bytes) ∧
      a.Stocked fs' m (Function.update content (a.tensorFile case .candidate) none) := by
  obtain ⟨e, he, hinput⟩ := hready.input
  have hthere : (a.hasTensor case .input).run fs = (.ok true, fs) := by
    rw [hasTensor_run h.lists, he]
    change (Except.ok (fs.isFile (join a.root e.file)), fs) = _
    rw [h.isFile hinput]
  obtain ⟨fs', hremove, hstocked⟩ :=
    h.removeStale (offers_tensorFile hready.case_ok hready.candidate)
  have hother : a.tensorFile case .input ≠ a.tensorFile case .candidate :=
    fun hsame => absurd (tensorFile_inj hsame).2.1 (by decide)
  refine ⟨fs', ?_, hstocked.exists_read (hready.fed.update hother none), hstocked⟩
  rw [Area.prepareInfer, run_get_bind, artifactPath_eq, h.isFile hready.artifact]
  simp only [Bool.not_true, Bool.false_eq_true, if_false]
  rw [run_bind_of_ok hthere]
  simp only [Bool.not_true, Bool.false_eq_true, if_false, hready.format, ne_eq, not_true_eq_false]
  rw [tensorPath, run_bind_of_ok hremove]
  rfl

end Stocked

end Area

/-! ## Launches that are answered -/

/-- Whatever is launched next, a tool delivers its output at the third argument and ends with an
exit code; after that the launcher is in one of some states. -/
def Launcher.Answers {σ : Type} (l : Launcher σ) (t : σ) (answer : Answer) (next : σ → Prop) :
    Prop :=
  ∀ request files, ∃ t', l.launch request files t = (.ok ⟨some answer.exitCode, "", ""⟩,
    Launcher.deliver (request.args.getD 2 "") files answer.output, t') ∧ next t'

/-- The tools that are rehearsed give their answers in turn. -/
theorem Launcher.rehearsed_answers (answer : Answer) (rest : List Answer) :
    rehearsed.Answers (answer :: rest) answer (· = rest) := fun _ _ => ⟨rest, rfl, rfl⟩

/-- When no answer is left, nothing is delivered. -/
theorem Launcher.rehearsed_answers_nil : rehearsed.Answers [] ⟨none, 0⟩ (· = []) :=
  fun _ _ => ⟨[], rfl, rfl⟩

/-- What an invocation leaves whose launch is answered: the launch on the ledger, the launcher in
one of some states and the area stocked. Elsewhere nothing is changed. -/
structure Area.Answered {σ : Type} (a : Area) (next : σ → Prop) (m : Manifest)
    (content : String → Option Bytes) (b b' : Bench σ) : Prop where
  /-- The state of the launcher. -/
  tools : next b'.tools
  /-- The launch is on record. -/
  ledger : b'.ledger.length = b.ledger.length + 1
  /-- What is changed is in the directory. -/
  within : b.files.Within a.root b'.files
  /-- What is there. -/
  stocked : a.Stocked b'.files m content

variable {σ : Type} {l : Launcher σ} {b : Bench σ} {answer : Answer} {next : σ → Prop}

/-- A tool without arguments of its own is told its output in the third argument. -/
theorem ToolCommand.request_output {c : ToolCommand} (hc : c.leading = []) (tool : ToolKind)
    (verb input output : String) (rest : List String) (directory : String) :
    (c.request tool (verb :: input :: output :: rest) directory).args.getD 2 "" = output := by
  rw [ToolCommand.request, hc]
  rfl

/-- A tool that is launched on files in which its output is free is answered. -/
theorem Area.Stocked.launchTool {a : Area} {fs : Files} {m : Manifest}
    {content : String → Option Bytes} {name : String} (h : a.Stocked fs m content)
    (hn : a.Offers name) (hfree : content name = none) (hwithin : b.files.Within a.root fs)
    (hl : l.Answers b.tools answer next) {request : Request}
    (hpath : request.args.getD 2 "" = join a.root name) (note : String) :
    ∃ b', (launchTool l request note).run { b with files := fs } =
        (.ok ⟨some answer.exitCode, "", ""⟩, b') ∧
      a.Answered next m (Function.update content name answer.output) b b' := by
  obtain ⟨t, hlaunch, ht⟩ := hl request fs
  rw [hpath] at hlaunch
  have hdelivered := h.deliver hn hfree answer.output
  have htouches := Launcher.deliver_touches (join a.root name) fs answer.output
  rw [location_join a.root hn.isName] at htouches
  refine ⟨(Bench.launch l request note { b with files := fs }).2, ?_, ?_, ?_, ?_, ?_⟩
  · rw [Area.launchTool_run, Bench.launch, hlaunch]
    rfl
  · rw [Bench.launch, hlaunch]
    exact ht
  · rw [Area.launch_ledger, List.length_append]
    rfl
  · rw [Bench.launch, hlaunch]
    exact hwithin.trans (htouches.within h.stands)
  · rw [Bench.launch, hlaunch]
    exact hdelivered

/-- An exit code that is not zero is no success. -/
theorem not_success {code : Int} (h : (!(⟨some code, "", ""⟩ : Outcome).success) = true) :
    code ≠ 0 := by
  rintro rfl
  cases h

theorem success_of_not {code : Int} (h : ¬ (!(⟨some code, "", ""⟩ : Outcome).success) = true) :
    code = 0 := by
  simpa [Outcome.success] using h

namespace Area.Stocked

variable {a : Area} {m : Manifest} {content : String → Option Bytes} {c : ToolCommand}

/-- A compilation that is answered leaves what the compiler delivered. It fails only when the
compiler ends badly or delivers nothing. -/
theorem compileStaged (h : a.Stocked b.files m content) {o : CompileOptions}
    (hready : a.Compilable o m content) (hc : c.leading = [])
    (hl : l.Answers b.tools answer next) :
    (a.compileStaged l c o).Ends b
      (fun e b' => a.Answered next m (Function.update content artifactName answer.output) b b' ∧
        (answer.exitCode ≠ 0 ∧ e.reasonCode = "harness_compile_failed" ∨ answer.output = none))
      fun _ b' => a.Answered next m (Function.update content artifactName answer.output) b b' ∧
        answer.exitCode = 0 := by
  obtain ⟨model, fs, hm, hstores, hp, hprepared⟩ := h.prepareCompile hready.toSubmitted c
  obtain ⟨source, hsource⟩ := hprepared.exists_read (hstores.update (hready.apart model hm) none)
  have hartifact : a.Offers artifactName := offers_artifact hready.artifact
  obtain ⟨b', hlaunch, hanswered⟩ := hprepared.launchTool hartifact (Function.update_self ..)
    (prepareCompile_within hp) hl (ToolCommand.request_output hc ..) "compile"
  rw [Function.update_idem] at hanswered
  rw [Area.compileStaged]
  refine .bind (.onBench (ends_ok hp ?_))
  refine .bind (.onBench (ends_ok (readExisting_eq_ok.mpr hsource) ?_))
  refine .bind (ends_ok hlaunch ?_)
  refine ends_guard (fun hbad => ⟨hanswered, Or.inl ⟨not_success hbad, rfl⟩⟩) fun hgood => ?_
  have hcode : answer.exitCode = 0 := success_of_not hgood
  cases houtput : answer.output with
  | none =>
    rw [houtput] at hanswered
    refine .bind (.onBench ((a.collectArtifact_ends b'.files).mono ?_ ?_))
    · rintro e _ rfl
      exact ⟨hanswered, Or.inr rfl⟩
    · rintro bytes _ ⟨rfl, -⟩
      exact ends_pure ⟨hanswered, hcode⟩
  | some bytes =>
    rw [houtput] at hanswered
    have hread : b'.files.read a.artifactPath = .ok bytes :=
      hanswered.stocked.read hartifact (Function.update_self ..)
    have hcollect : a.collectArtifact.run b'.files = (.ok bytes, b'.files) := by
      rw [collectArtifact, run_get_bind, Files.isFile_iff.mpr ⟨bytes, hread⟩]
      exact readExisting_eq_ok.mpr hread
    exact .bind (.onBench (ends_ok hcollect (ends_pure ⟨hanswered, hcode⟩)))

/-- With the model in place of the artifact the compiler is not launched, and the model is gone. -/
theorem compileStaged_misplaced (h : a.Stocked b.files m content) {o : CompileOptions}
    (hready : a.Submitted o m content)
    (hsame : ∀ model, m.model = some model → model.file = artifactName) :
    (a.compileStaged l c o).Ends b
      (fun _ b' => b'.tools = b.tools ∧ b'.ledger = b.ledger ∧
        a.Stocked b'.files m (Function.update content artifactName none))
      fun _ _ => False := by
  obtain ⟨model, fs, hm, -, hp, hprepared⟩ := h.prepareCompile hready c
  have hgone : ¬ ∃ bytes, fs.read (join a.root model.file) = .ok bytes := by
    rw [← Files.isFile_iff, hsame model hm,
      hprepared.not_isFile (offers_artifact hready.artifact) (Function.update_self ..)]
    decide
  have hunread := readExisting_ends (join a.root model.file) fs
  rw [Area.compileStaged]
  refine .bind (.onBench (ends_ok hp ?_))
  rcases hrun : (readExisting (join a.root model.file)).run fs with ⟨e | bytes, fs₁⟩
  · obtain rfl := hunread.of_error hrun
    exact .bind (.onBench (ends_error hrun ⟨rfl, rfl, hprepared⟩))
  · exact absurd ⟨bytes, (hunread.of_ok hrun).2⟩ hgone

/-- An inference that is answered leaves what the runtime delivered, and puts it on record when it
ends well. It fails only when the runtime ends badly or its output cannot be told of. -/
theorem inferStaged (h : a.Stocked b.files m content) {case : String} {o : InferOptions}
    (hready : a.Inferable case o m content) (hc : c.leading = [])
    (hl : l.Answers b.tools answer next) :
    (a.inferStaged l c case o).Ends b
      (fun e b' => a.Answered next m
          (Function.update content (a.tensorFile case .candidate) answer.output) b b' ∧
        (answer.exitCode ≠ 0 ∧ e.reasonCode = "harness_infer_failed" ∨
          ∀ bytes told, answer.output = some bytes →
            a.describe (a.tensorPath case .candidate) bytes .f32 ≠ .ok told))
      fun _ b' => answer.exitCode = 0 ∧ ∃ bytes told, answer.output = some bytes ∧
        a.describe (a.tensorPath case .candidate) bytes .f32 = .ok told ∧
        a.Answered next (m.record (a.externalEntry case .candidate told bytes))
          (Function.update content (a.tensorFile case .candidate) (some bytes)) b b' := by
  obtain ⟨fs, hp, ⟨input, hinput⟩, hprepared⟩ := h.prepareInfer hready c
  have hcandidate : a.Offers (a.tensorFile case .candidate) :=
    offers_tensorFile hready.case_ok hready.candidate
  obtain ⟨b', hlaunch, hanswered⟩ := hprepared.launchTool hcandidate (Function.update_self ..)
    (prepareInfer_within (checkCase_ok hready.case_ok).1 hp) hl
    (ToolCommand.request_output hc ..) case
  rw [Function.update_idem] at hanswered
  rw [Area.inferStaged]
  refine .bind (.onBench (ends_ok hp ?_))
  refine .bind (.onBench (ends_ok (readExisting_eq_ok.mpr hinput) ?_))
  refine .bind (ends_ok hlaunch ?_)
  refine ends_guard (fun hbad => ⟨hanswered, Or.inl ⟨not_success hbad, rfl⟩⟩) fun hgood => ?_
  have hcode : answer.exitCode = 0 := success_of_not hgood
  cases houtput : answer.output with
  | none =>
    rw [houtput] at hanswered
    have hmissing : ∃ e, (a.collectCandidate case).run b'.files = (.error e, b'.files) := by
      rw [collectCandidate, run_get_bind, tensorPath,
        hanswered.stocked.not_isFile hcandidate (Function.update_self ..)]
      exact ⟨_, rfl⟩
    obtain ⟨e, he⟩ := hmissing
    exact .bind (.onBench (ends_error he ⟨hanswered, Or.inr fun _ _ hnone => by cases hnone⟩))
  | some bytes =>
    rw [houtput] at hanswered
    have hread : b'.files.read (a.tensorPath case .candidate) = .ok bytes :=
      hanswered.stocked.read hcandidate (Function.update_self ..)
    have hcollect : (a.collectCandidate case).run b'.files =
        (a.recordExternal case .candidate .f32).run b'.files := by
      rw [collectCandidate, run_get_bind, Files.isFile_iff.mpr ⟨bytes, hread⟩]
      rfl
    cases hd : a.describe (a.tensorPath case .candidate) bytes .f32 with
    | error cause =>
      have hunread : (a.recordExternal case .candidate .f32).run b'.files =
          (.error cause, b'.files) := by
        rw [Area.recordExternal, run_settle_bind, hready.case_ok]
        simp only
        rw [run_bind_of_ok (readExisting_eq_ok.mpr hread), run_settle_bind, hd]
      refine .bind (.onBench (ends_error (hcollect.trans hunread) ?_))
      refine ⟨hanswered, Or.inr fun found told hfound htold => ?_⟩
      cases hfound
      rw [hd] at htold
      cases htold
    | ok told =>
      obtain ⟨fs', hrecord, hrecorded⟩ := hanswered.stocked.recordExternal hready.case_ok
        hready.candidate (Function.update_self ..) hd
      have hwithin := a.recordExternal_within case .candidate .f32 b'.files
      rw [hrecord] at hwithin
      refine .bind (.onBench (ends_ok (hcollect.trans hrecord) (ends_pure ?_)))
      exact ⟨hcode, bytes, told, rfl, hd, hanswered.tools, hanswered.ledger,
        hanswered.within.trans hwithin, hrecorded⟩

end Area.Stocked

/-! ## Invocations with a line -/

namespace Area.Stocked

variable {a : Area} {m : Manifest} {content : String → Option Bytes} {c : ToolCommand}
  {j : Journal} {opened : Files → Prop} {bytes : Bytes}

/-- A compilation by a compiler that ends well and delivers an artifact succeeds. -/
theorem compile (h : a.Stocked b.files m content) (hj : j.Attended a.root opened)
    (hopen : opened b.files) {o : CompileOptions} (hready : a.Compilable o m content)
    (hc : c.leading = []) (hl : l.Answers b.tools ⟨some bytes, 0⟩ next) :
    ∃ compiled b', (a.compile j l c o).run b = (.ok compiled, b') ∧ next b'.tools ∧
      opened b'.files ∧
      a.Stocked b'.files m (Function.update content artifactName (some bytes)) := by
  have hends := h.compileStaged hready hc hl
  have hcloses := a.compile_closes j l c o b
  rcases hrun : (a.compileStaged l c o).run b with ⟨e | compiled, b₁⟩
  · obtain ⟨-, ⟨hcode, -⟩ | hnone⟩ := hends.of_error hrun
    · exact absurd rfl hcode
    · cases hnone
  · obtain ⟨hanswered, -⟩ := hends.of_ok hrun
    rw [hrun] at hcloses
    obtain ⟨fs', hlogged, hleaves, hopen'⟩ :=
      (hj.continues (hj.within hanswered.within hopen)).closesOnBench hcloses
    exact ⟨compiled, _, hlogged, hanswered.tools, hopen', hanswered.stocked.of_leaves hleaves⟩

/-- An inference by a runtime that ends well and delivers a candidate that can be told of
succeeds. -/
theorem infer (h : a.Stocked b.files m content) (hj : j.Attended a.root opened)
    (hopen : opened b.files) {case : String} {o : InferOptions}
    (hready : a.Inferable case o m content) (hc : c.leading = [])
    (hl : l.Answers b.tools ⟨some bytes, 0⟩ next) {told : Option Shape × ElementType}
    (hd : a.describe (a.tensorPath case .candidate) bytes .f32 = .ok told) :
    ∃ path b', (a.infer j l c case o).run b = (.ok path, b') ∧ next b'.tools ∧ opened b'.files ∧
      a.Stocked b'.files (m.record (a.externalEntry case .candidate told bytes))
        (Function.update content (a.tensorFile case .candidate) (some bytes)) := by
  have hends := h.inferStaged hready hc hl
  have hcloses := a.infer_closes j l c case o b
  rcases hrun : (a.inferStaged l c case o).run b with ⟨e | path, b₁⟩
  · obtain ⟨-, ⟨hcode, -⟩ | hunread⟩ := hends.of_error hrun
    · exact absurd rfl hcode
    · exact absurd hd (hunread bytes told rfl)
  · obtain ⟨-, found, told', hfound, hd', hanswered⟩ := hends.of_ok hrun
    cases hfound
    rw [hd] at hd'
    cases hd'
    rw [hrun] at hcloses
    obtain ⟨fs', hlogged, hleaves, hopen'⟩ :=
      (hj.continues (hj.within hanswered.within hopen)).closesOnBench hcloses
    exact ⟨path, _, hlogged, hanswered.tools, hopen', hanswered.stocked.of_leaves hleaves⟩

end Area.Stocked

end NetTrial
