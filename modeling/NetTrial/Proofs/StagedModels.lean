import NetTrial.Proofs.ToolPaths
import NetTrial.Proofs.TruthfulManifests
/-!
# The staged model beside the artifact

The artifact has a fixed name, and the file of a model is named after the extension that comes with
it. Where the two are different files, inferences are refused until a compiler was launched, and
the model outlives every compilation: a compilation changes nothing but the place of the artifact,
and no tensor is put in place of the document that names the model. Where the extension puts the
model in place of the artifact, the first inference already finds one.
-/

namespace NetTrial

open NetTrial.Path Text NetTrial.Action

/-! ## The recorded model -/

namespace Area

variable {a : Area} {fs fs' : Files} {m : Manifest} {model : ModelEntry} {source : ModelSource}
  {bytes : Bytes}

/-- The manifest of a standing area records a model. -/
structure Registers (a : Area) (model : ModelEntry) (fs : Files) : Prop where
  /-- The root is there. -/
  stands : fs.Stands a.root
  /-- The path of the manifest is one. -/
  spoken : Files.admits a.root manifestName = .ok ()
  /-- The document says the model. -/
  recorded : ∃ m, a.Says fs m ∧ m.model = some model

theorem registers_of_lists (hl : a.Lists fs m) (hm : m.model = some model) :
    a.Registers model fs := by
  obtain ⟨hs, ha⟩ := hl.stands_of_model hm
  rcases hl.says_or_empty with hsays | rfl
  · exact ⟨hs, ha, m, hsays, hm⟩
  · cases hm

theorem Registers.lists (h : a.Registers model fs) :
    ∃ m, a.Lists fs m ∧ m.model = some model := by
  obtain ⟨m, hsays, hm⟩ := h.recorded
  exact ⟨m, hsays.lists h.stands h.spoken, hm⟩

/-- A model is registered in a root, whatever format the area has. -/
theorem Registers.of_root {root : String} {format format' : DatasetFormat}
    (h : (⟨root, format⟩ : Area).Registers model fs) :
    (⟨root, format'⟩ : Area).Registers model fs :=
  ⟨h.stands, h.spoken, h.recorded⟩

theorem Registers.of_spares {spots : Location → Prop} (h : a.Registers model fs)
    (hs : fs.Spares spots fs') (hspot : ¬ spots a.manifestSpot) : a.Registers model fs' := by
  obtain ⟨m, hsays, hm⟩ := h.recorded
  refine ⟨hs.stands h.stands, h.spoken, m, hsays.of_file fun bytes => ?_, hm⟩
  exact (hs.file _ hspot bytes).mpr

/-- A changed manifest registers the model that it keeps. -/
theorem Registers.withManifest (h : a.Registers model fs) {m' : Manifest} (hl : a.Lists fs m)
    (hfits : m'.Fits) (hkeep : m'.model = m.model) :
    a.Registers model (a.withManifest fs m') := by
  obtain ⟨found, hfound, hm⟩ := h.lists
  rw [hl.unique hfound] at hkeep
  exact registers_of_lists (withManifest_lists hl h.stands hfits) (hkeep.trans hm)

theorem Registers.stageTensor (h : a.Registers model fs) (case : String) (role : Role)
    {t : Tensor} (ht : t.shape.Fits) :
    a.Registers model ((a.stageTensor case role t).run fs).2 := by
  have hpath := a.location_tensorPath_ne_fixed manifest_fixed case role
  rcases a.stageTensor_ends case role t fs with ⟨e, he⟩ | ⟨bytes, r, fs', -, -, hr, hentered⟩
  · rw [he]
    exact h
  · rw [hr]
    refine hentered.keeps hpath Registers.of_spares (fun stored m hstored hl => ?_) h
    exact hstored.withManifest hl (hl.fits.record (fits_entryOf ht bytes)) rfl

theorem Registers.recordExternal (h : a.Registers model fs) (case : String) (role : Role)
    (kind : ElementType) : a.Registers model ((a.recordExternal case role kind).run fs).2 := by
  rcases a.recordExternal_ends case role kind fs with
    ⟨e, he⟩ | ⟨bytes, told, m, -, -, hd, -, hl, hr⟩
  · rw [he]
    exact h
  · rw [hr]
    exact h.withManifest hl (hl.fits.record (fits_externalEntry hd bytes)) rfl

/-- When a model is staged its file is stored, and then the manifest is written, which registers the
model. -/
theorem stageModel_registers {path : String}
    (h : (a.stageModel source).run fs = (.ok path, fs')) :
    ∃ bytes stored, source.serialized = .ok bytes ∧ a.Stored (a.modelPath source) bytes fs stored ∧
      stored.Spares (· = a.manifestSpot) fs' ∧ a.Registers (modelEntryOf source bytes) fs' := by
  rcases a.stageModel_ends source fs with ⟨e, he⟩ | ⟨bytes, r, fs₁, hb, hr, hentered⟩
  · rw [he] at h
    cases h
  · rw [hr] at h
    cases hentered with
    | refused _ => cases h
    | unrecorded _ _ => cases h
    | recorded hst hl =>
      cases h
      refine ⟨bytes, _, hb, hst, withManifest_spares hl hst.stands _, ?_⟩
      exact registers_of_lists (withManifest_lists hl hst.stands (hl.fits.withModel _)) rfl

/-- The model of an area is found under the path and the format of a source, its file holds the
bytes, and their digest is recorded. -/
structure Presents (a : Area) (source : ModelSource) (bytes : Bytes) (fs : Files) : Prop where
  /-- It is found. -/
  found : a.model.run fs = (.ok (a.modelPath source, source.format.name), fs)
  /-- Its file holds the bytes. -/
  read : fs.read (a.modelPath source) = .ok bytes
  /-- Their digest is recorded. -/
  digest : ∃ m model, a.Lists fs m ∧ m.model = some model ∧
    model.sha256 = Digest.sha256Hex bytes

theorem Registers.presents (h : a.Registers (modelEntryOf source bytes) fs)
    (hread : fs.read (a.modelPath source) = .ok bytes) : a.Presents source bytes fs := by
  obtain ⟨m, hl, hm⟩ := h.lists
  refine ⟨?_, hread, m, _, hl, hm, rfl⟩
  have hfile : fs.isFile (join a.root (modelEntryOf source bytes).file) = true :=
    Files.isFile_iff.mpr ⟨bytes, hread⟩
  rw [model_run hl, hm]
  simp only [hfile, if_true]
  rfl

/-! ## Inferences without an artifact, and with one -/

/-- Without an artifact nothing else is looked at. -/
theorem prepareInfer_missing (hf : fs.isFile a.artifactPath = false) (c : ToolCommand)
    (case : String) (o : InferOptions) :
    (a.prepareInfer c case o).run fs = (.error (.missing a.artifactPath .artifact), fs) := by
  rw [prepareInfer, run_get_bind, if_pos (by rw [hf]; rfl)]
  rfl

/-- With an artifact and a manifest an inference in another format than that of the area is
refused, but not for lack of an artifact. -/
theorem prepareInfer_foreign (hf : fs.isFile a.artifactPath = true) (hl : a.Lists fs m)
    (c : ToolCommand) (case : String) {o : InferOptions} (ho : o.datasetFormat ≠ a.format) :
    ∃ e, (a.prepareInfer c case o).run fs = (.error e, fs) ∧
      e ≠ .missing a.artifactPath .artifact := by
  rw [prepareInfer, run_get_bind, if_neg (by simp [hf]),
    run_bind_of_ok (hasTensor_run hl case .input)]
  by_cases hthere : (m.tensor? case .input).any (a.holds fs) = true
  · rw [if_neg (by simp [hthere]), if_pos ho]
    exact ⟨_, rfl, by simp⟩
  · rw [if_pos (by simpa using hthere)]
    exact ⟨_, rfl, by simp⟩

/-! ## Where a model with a plain extension is put -/

section Plain

variable {format : ModelFormat} (hdot : '.' ∉ format.extension.toList)
  (hslash : '/' ∉ format.extension.toList)

include hslash

/-- The file of a model whose extension has no slash is an entry of the root. -/
theorem location_modelFile (root : String) :
    location (join root (modelFile format)) = location root ++ [modelFile format] := by
  refine location_join root ?_
  have hname := isName_opening hslash
  rwa [← toList_modelFile, String.ofList_toList] at hname

/-- A model whose extension has no slash is put in place of the artifact by one extension. -/
theorem location_modelFile_eq_artifact (root : String) :
    location (join root (modelFile format)) = location root ++ [artifactName] ↔
      format.extension = "kmodel" := by
  rw [location_modelFile hslash]
  constructor
  · intro h
    have hname := congrArg String.toList (entry_inj h)
    rw [toList_modelFile] at hname
    have hopens : modelOpening ++ format.extension.toList = modelOpening ++ "kmodel".toList := hname
    exact String.toList_inj.mp (List.append_cancel_left hopens)
  · intro h
    rw [modelFile, h]
    rfl

include hdot

/-- A model whose extension has neither dot nor slash is not put in place of any tensor, whatever
the case. -/
theorem location_modelFile_ne_tensor (a : Area) (case : String) (role : Role) :
    location (join a.root (modelFile format)) ≠ location (a.tensorPath case role) := by
  obtain ⟨directory, name, hl, front, hname⟩ := a.location_tensorPath case role
  rw [location_modelFile hslash, hl]
  intro he
  have hlast := congrArg List.getLast? he
  simp only [List.getLast?_concat, Option.some.injEq] at hlast
  have hcount := congrArg (List.count '.') (congrArg String.toList hlast)
  rw [toList_modelFile, hname, List.count_append, List.count_append,
    List.count_eq_zero_of_not_mem hdot] at hcount
  have hone : modelOpening.count '.' = 1 := by decide
  have htwo : (ending role a.format).count '.' = 2 := by
    cases role <;> cases a.format <;> decide
  omega

end Plain

end Area

/-- In the areas of a root, what is launched for a compilation changes nothing but the artifact. -/
def Launcher.CompilesInPlace {σ : Type} (l : Launcher σ) (tools : Toolchain) (root : String) :
    Prop :=
  ∀ {a : Area} {o : CompileOptions} {fs fs' : Files} {request : Request} {path : String} (s : σ),
    a.root = root → (a.prepareCompile tools.compiler o).run fs = (.ok (request, path), fs') →
      fs'.Touches a.artifactSpot (l.launch request fs' s).2.1

/-- A task other than to clear, to stage a model and to compile. A tensor that it stages has
dimensions that a machine can count. -/
def Task.Supplies : Task → Prop
  | .saveTensor _ _ t => t.shape.Fits
  | .recordExternal .. | .infer .. => True
  | .clear | .saveModel _ | .compile _ => False

namespace Site

variable {σ : Type} {w : Site σ} {t clear save : Turn} {b : Bench σ} {source : ModelSource}
  {bytes : Bytes} {turns earlier later : List Turn}

/-- Where the file of a model belongs. -/
def modelSpot (w : Site σ) (source : ModelSource) : Location :=
  location (join w.root (Area.modelFile source.format))

/-- The journal of a turn is kept in none of the files of artifact, manifest and model. -/
structure LogsAside (w : Site σ) (source : ModelSource) (t : Turn) : Prop where
  /-- It is not the artifact. -/
  artifact : ¬ t.journal.IsAt w.artifactSpot
  /-- It is not the manifest. -/
  manifest : ¬ t.journal.IsAt (w.area t).manifestSpot
  /-- It is not the model. -/
  model : ¬ t.journal.IsAt (w.modelSpot source)

/-- What every turn of a run keeps the run keeps. -/
theorem after_of_step (kept : Bench σ → Prop) (h : kept b)
    (hstep : ∀ t ∈ turns, ∀ b, kept b → kept (w.step b t)) : kept (w.after b turns) := by
  induction turns generalizing b with
  | nil => exact h
  | cons t turns ih =>
    exact ih (hstep t List.mem_cons_self b h) fun u hu => hstep u (List.mem_cons_of_mem t hu)

/-! ## What a turn leaves alone -/

/-- A site with tools that never run. -/
def idle (w : Site σ) : Site σ :=
  { w with launcher := ⟨fun r files tools => (.error (.noProgram r.tool), files, tools)⟩ }

theorem idle_keepsTo (w : Site σ) : w.idle.launcher.KeepsTo w.idle.tools w.idle.root where
  compiler _ _ _ := .refl _ _
  runtime _ _ _ := .refl _ _

/-- A turn that asks for no tool does not depend on the tools. -/
theorem step_idle (hcompile : ∀ o, t.task ≠ .compile o) (hinfer : ∀ case o, t.task ≠ .infer case o)
    (b : Bench σ) : w.idle.step b t = w.step b t := by
  rw [step, step, perform, perform]
  cases ht : t.task with
  | clear | saveModel _ | saveTensor _ _ _ | recordExternal _ _ _ => rfl
  | compile o => exact absurd ht (hcompile o)
  | infer case o => exact absurd ht (hinfer case o)

/-- A compilation changes nothing but the artifact and its journal. -/
theorem compile_spares (hl : w.launcher.CompilesInPlace w.tools w.root)
    (ht : ∃ o, t.task = .compile o) (b : Bench σ) :
    b.files.Spares (w.Places t) (w.step b t).files := by
  obtain ⟨o, ho⟩ := ht
  obtain ⟨r, b', hends, hspares, -, -⟩ := step_compile_ends (w := w) ho b
  have htouches : b.files.Touches w.artifactSpot b'.files := by
    cases hends with
    | refused => exact .refl _ _
    | unread hp => exact (((w.area t).prepareCompile_ends _ o _).of_ok hp).2.2.2.1.touches
    | failed hp | made hp _ _ =>
      exact (((w.area t).prepareCompile_ends _ o _).of_ok hp).2.2.2.1.touches.trans
        (hl b.tools rfl hp)
  refine (htouches.spares.mono fun loc hloc => ?_).trans (hspares.mono fun _ => Or.inl)
  rw [Places, ho]
  exact Or.inr hloc

/-! ## The place of the artifact -/

/-- No file is in place of the artifact. -/
def Vacant (w : Site σ) (b : Bench σ) : Prop :=
  ∀ bytes, b.files.get? w.artifactSpot ≠ some (.file bytes)

/-- A clearing that finds the root leading to a directory, or no file in place of the artifact,
leaves none there, success or not. -/
theorem step_clear_vacant (ht : t.task = .clear)
    (hstart : (w.area t).Leads b.files ∨ w.Vacant b) (hj : ¬ t.journal.IsAt w.artifactSpot) :
    w.Vacant (w.step b t) := by
  obtain ⟨logged, hcloses, hstep⟩ := step_clear (w := w) ht b
  intro bytes hf
  rw [hstep] at hf
  have hreset := (hcloses.spares.file _ hj bytes).mp hf
  rcases hstart with hleads | hvacant
  · have hc := (Files.locate_eq_ok.mp hleads).1
    exact Area.reset_no_file ((Files.stands_iff_locate hc).mpr hleads) hc w.isBelow_artifactSpot
      bytes hreset
  · exact hvacant bytes (Area.reset_old hreset)

/-- An inference whose preparation is refused fails for that, launches nothing and writes nothing
but its journal. -/
theorem infer_refused {case : String} {o : InferOptions} {e : Failure}
    (ht : t.task = .infer case o)
    (hp : ((w.area t).prepareInfer w.tools.runtime case o).run b.files = (.error e, b.files)) :
    ((w.perform t).run b).1 = .error e ∧ ¬ w.Launches t b ∧
      b.files.Spares t.journal.IsAt (w.step b t).files := by
  have hstaged : ((w.area t).inferStaged w.launcher w.tools.runtime case o).run b =
      (.error e, b) := by
    rw [Area.inferStaged, run_bind_of_error (t := b) (e := e)]
    rw [run_onBench, hp]
  obtain ⟨hcloses, hrun⟩ := step_infer (w := w) ht b
  rw [hstaged] at hcloses
  have hfailed := hcloses.closes.failed rfl
  refine ⟨?_, fun hlaunched => hlaunched ?_, ?_⟩
  · rw [hrun, hfailed]
    rfl
  · rw [step, hrun]
    exact hcloses.ledger
  · rw [step, hrun]
    exact hcloses.spares

/-- While no artifact is there every inference is refused for lack of it. -/
theorem Vacant.infer (h : w.Vacant b) {case : String} {o : InferOptions}
    (ht : t.task = .infer case o) :
    ((w.perform t).run b).1 = .error (.missing (w.area t).artifactPath .artifact) ∧
      ¬ w.Launches t b ∧ b.files.Spares t.journal.IsAt (w.step b t).files := by
  refine infer_refused ht (Area.prepareInfer_missing ?_ _ case o)
  rw [← Bool.not_eq_true]
  intro hf
  obtain ⟨-, -, bytes, hfile⟩ := (Files.isFile_join_iff Area.isName_artifact).mp hf
  exact h bytes hfile

/-- The place of the artifact stays vacant unless a compiler is launched. -/
theorem Vacant.step (h : w.Vacant b) (havoid : w.Avoids w.artifactSpot t)
    (hn : ¬ w.Compiles t b) : w.Vacant (w.step b t) := by
  intro bytes hf
  cases ht : t.task with
  | compile o =>
    have hlaunches : ¬ w.Launches t b := fun hl => hn ⟨⟨o, ht⟩, hl⟩
    exact h bytes ((compile_unlaunched ht havoid.journal hlaunches).2 bytes hf)
  | infer case o =>
    exact h bytes (((h.infer ht).2.2.file _ havoid.journal bytes).mp hf)
  | clear | saveModel _ | saveTensor _ _ _ | recordExternal _ _ _ =>
    have hcompile : ∀ o, t.task ≠ .compile o := by simp [ht]
    have hinfer : ∀ case o, t.task ≠ .infer case o := by simp [ht]
    have hplaces : ¬ w.Places t w.artifactSpot :=
      not_places_artifactSpot havoid fun ⟨o, ho⟩ => hcompile o ho
    rw [← step_idle hcompile hinfer] at hf
    exact h bytes (step_old w.idle_keepsTo hplaces hf)

theorem Vacant.after (h : w.Vacant b) (havoid : ∀ t ∈ turns, w.Avoids w.artifactSpot t)
    (hstill : w.Still b turns) : w.Vacant (w.after b turns) := by
  induction turns generalizing b with
  | nil => exact h
  | cons t turns ih =>
    have hfirst : ¬ w.Compiles t b := hstill [] t (List.prefix_append [t] turns)
    refine ih (h.step (havoid t List.mem_cons_self) hfirst)
      (fun u hu => havoid u (List.mem_cons_of_mem t hu)) fun before turn hbefore => ?_
    exact hstill (t :: before) turn (List.cons_prefix_cons.mpr ⟨rfl, hbefore⟩)

/-! ## Model and artifact told apart -/

/-- The staged model and the artifact are told apart. -/
structure Distinct (w : Site σ) (source : ModelSource) (bytes : Bytes) (b : Bench σ) : Prop where
  /-- Until a compiler is launched inferences are refused for lack of an artifact, and launch
  nothing. -/
  infer : ∀ turns, (∀ t ∈ turns, w.Avoids w.artifactSpot t) → w.Still b turns →
    ∀ t case o, t.task = .infer case o →
      ((w.perform t).run (w.after b turns)).1 =
          .error (.missing (w.area t).artifactPath .artifact) ∧
        ¬ w.Launches t (w.after b turns)
  /-- After any compilations, however they end, the model is found as it was staged. -/
  compile : ∀ turns, (∀ t ∈ turns, (∃ o, t.task = .compile o) ∧ w.LogsAside source t) →
    ∀ format, (⟨w.root, format⟩ : Area).Presents source bytes (w.after b turns).files

/-- A model in place of the artifact is not told apart from it: the next inference finds an
artifact. -/
theorem Distinct.apart (h : w.Distinct source bytes b) :
    w.modelSpot source ≠ w.artifactSpot := by
  intro hspot
  obtain ⟨-, hread, m, model, hl, hm, -⟩ := h.compile [] (List.forall_mem_nil _) .raw
  obtain ⟨hs, ha⟩ := hl.stands_of_model hm
  have hthere : b.files.get? w.artifactSpot = some (.file bytes) :=
    hspot ▸ Files.read_location hread
  have hfile : b.files.isFile (⟨w.root, .raw⟩ : Area).artifactPath = true :=
    (Files.isFile_join_iff Area.isName_artifact).mpr ⟨hs, Area.admits_artifact ha, bytes, hthere⟩
  -- an inference in another format is refused for its format, or for its case
  have hformat : (⟨.npy⟩ : InferOptions).datasetFormat ≠ (⟨w.root, .raw⟩ : Area).format :=
    show DatasetFormat.npy ≠ .raw by decide
  obtain ⟨e, hp, hne⟩ := Area.prepareInfer_foreign hfile hl w.tools.runtime "" hformat
  have hother := (infer_refused (t := ⟨.raw, {}, .infer "" ⟨.npy⟩⟩) rfl hp).1
  have hmissing := (h.infer [] (List.forall_mem_nil _) (w.still_nil b)
    ⟨.raw, {}, .infer "" ⟨.npy⟩⟩ "" _ rfl).1
  rw [after_nil, hother] at hmissing
  exact hne (Except.error.inj hmissing)

/-- A model is recorded, and its file holds its bytes. -/
structure Holds (w : Site σ) (source : ModelSource) (bytes : Bytes) (b : Bench σ) : Prop where
  /-- The manifest records the model. -/
  registers : ∀ format,
    (⟨w.root, format⟩ : Area).Registers (Area.modelEntryOf source bytes) b.files
  /-- Its file holds its bytes. -/
  read : b.files.read (join w.root (Area.modelFile source.format)) = .ok bytes

/-- A compilation keeps a model that is not put in place of the artifact, however it ends. -/
theorem Holds.compile (h : w.Holds source bytes b)
    (hl : w.launcher.CompilesInPlace w.tools w.root)
    (hspot : w.modelSpot source ≠ w.artifactSpot) (ht : ∃ o, t.task = .compile o)
    (hj : w.LogsAside source t) : w.Holds source bytes (w.step b t) := by
  have hspares := compile_spares hl ht b
  have hfree : ∀ loc, loc ≠ w.artifactSpot → ¬ t.journal.IsAt loc → ¬ w.Places t loc := by
    rintro loc hne hlog (hplace | hplace)
    · exact hlog hplace
    · obtain ⟨o, ho⟩ := ht
      rw [ho] at hplace
      exact hne hplace
  have hmanifest : ¬ w.Places t (w.area t).manifestSpot :=
    hfree _ (w.area t).artifactSpot_ne_manifestSpot.symm hj.manifest
  exact ⟨fun format => (h.registers format).of_spares hspares hmanifest,
    hspares.read h.read (hfree _ hspot hj.model)⟩

/-- A model is staged, and no artifact is there. -/
structure Awaits (w : Site σ) (source : ModelSource) (bytes : Bytes) (b : Bench σ) : Prop where
  /-- The manifest records the model. -/
  registers : ∀ format,
    (⟨w.root, format⟩ : Area).Registers (Area.modelEntryOf source bytes) b.files
  /-- No artifact is there. -/
  vacant : w.Vacant b

/-- Where no artifact is there, and the model is put elsewhere and holds its bytes, they are told
apart. -/
theorem Awaits.distinct (h : w.Awaits source bytes b)
    (hl : w.launcher.CompilesInPlace w.tools w.root)
    (hspot : w.modelSpot source ≠ w.artifactSpot)
    (hread : b.files.read (join w.root (Area.modelFile source.format)) = .ok bytes) :
    w.Distinct source bytes b where
  infer turns havoid hstill t case o ht := by
    obtain ⟨hmissing, hlaunches, -⟩ := (h.vacant.after havoid hstill).infer ht
    exact ⟨hmissing, hlaunches⟩
  compile turns hturns format := by
    have hkept : w.Holds source bytes (w.after b turns) :=
      after_of_step (w.Holds source bytes) ⟨h.registers, hread⟩
        fun t ht b hholds => hholds.compile hl hspot (hturns t ht).1 (hturns t ht).2
    exact (hkept.registers format).presents hkept.read

/-! ## Staging a model in a cleared directory -/

/-- A turn that supplies is none of the others. -/
theorem ne_of_supplies (h : t.task.Supplies) :
    (∀ source, t.task ≠ .saveModel source) ∧ ∀ o, t.task ≠ .compile o := by
  cases ht : t.task with
  | clear | saveModel _ | compile _ =>
    rw [ht] at h
    cases h
  | saveTensor _ _ _ | recordExternal _ _ _ | infer _ _ => simp

/-- A turn that supplies neither clears nor compiles, and its journal is not the artifact. -/
theorem Vacant.supplied (h : w.Vacant b) (ht : t.task.Supplies) (hj : w.LogsAside source t) :
    w.Vacant (w.step b t) := by
  obtain ⟨hsave, hcompile⟩ := ne_of_supplies ht
  refine h.step ⟨hj.artifact, fun source hs => absurd hs (hsave source)⟩ ?_
  rintro ⟨⟨o, ho⟩, -⟩
  exact hcompile o ho

/-- While no artifact is there, a turn that supplies writes at its own places only. -/
theorem Vacant.supply_spares (h : w.Vacant b) (ht : t.task.Supplies) :
    b.files.Spares (w.Places t) (w.step b t).files := by
  cases htask : t.task with
  | clear | saveModel _ | compile _ =>
    rw [htask] at ht
    cases ht
  | infer case o => exact (h.infer htask).2.2.mono fun _ => Or.inl
  | saveTensor _ _ _ | recordExternal _ _ _ =>
    rw [← step_idle (by simp [htask]) (by simp [htask])]
    exact step_spares w.idle_keepsTo (by simp [htask]) b

/-- A model stays registered, and awaits its compilation, while tensors are supplied. -/
theorem Awaits.step (h : w.Awaits source bytes b) (ht : t.task.Supplies)
    (hj : w.LogsAside source t) : w.Awaits source bytes (w.step b t) := by
  have hr : (w.area t).Registers (Area.modelEntryOf source bytes) b.files := h.registers t.format
  suffices hkept : (w.area t).Registers (Area.modelEntryOf source bytes) (w.step b t).files from
    ⟨fun format => hkept.of_root, h.vacant.supplied ht hj⟩
  cases htask : t.task with
  | clear | saveModel _ | compile _ =>
    rw [htask] at ht
    cases ht
  | saveTensor case role tensor =>
    rw [htask] at ht
    obtain ⟨logged, hcloses, hstep⟩ := step_saveTensor (w := w) htask b
    rw [hstep]
    exact (hr.stageTensor case role ht).of_spares hcloses.spares hj.manifest
  | recordExternal case role kind =>
    rw [step_recordExternal htask b]
    exact hr.recordExternal case role kind
  | infer case o => exact hr.of_spares (h.vacant.infer htask).2.2 hj.manifest

/-- A model that was staged is registered, and its file holds its bytes unless it is the
manifest. -/
theorem step_saved (ht : t.task = .saveModel source) (hj : w.LogsAside source t)
    (hok : ((w.perform t).run b).1 = .ok none) :
    ∃ bytes, source.serialized = .ok bytes ∧
      (w.area t).Registers (Area.modelEntryOf source bytes) (w.step b t).files ∧
      (w.modelSpot source ≠ (w.area t).manifestSpot →
        (w.step b t).files.read (join w.root (Area.modelFile source.format)) = .ok bytes) := by
  obtain ⟨hcloses, hperform⟩ := step_saveModel (w := w) ht b
  rw [hperform] at hok
  rw [step, hperform]
  cases hlogged : (((w.area t).saveModel t.journal source).run b.files).1 with
  | error e =>
    rw [hlogged] at hok
    cases hok
  | ok path =>
    obtain ⟨bytes, stored, hb, hst, hs, hr⟩ :=
      Area.stageModel_registers (Prod.ext (hcloses.ok hlogged) rfl)
    refine ⟨bytes, hb, hr.of_spares hcloses.spares hj.manifest, fun hspot => ?_⟩
    exact hcloses.spares.read (hs.read hst.read hspot) hj.model

/-- No turn that supplies writes in place of a model whose extension has neither dot nor slash. -/
theorem not_places_modelSpot (hdot : '.' ∉ source.format.extension.toList)
    (hslash : '/' ∉ source.format.extension.toList) (ht : t.task.Supplies)
    (hj : w.LogsAside source t) : ¬ w.Places t (w.modelSpot source) := by
  have hmanifest : w.modelSpot source ≠ (w.area t).manifestSpot :=
    Area.location_model_ne_manifest (a := w.area t) hdot
  have htensor : ∀ case role, w.modelSpot source ≠ location ((w.area t).tensorPath case role) :=
    Area.location_modelFile_ne_tensor hdot hslash (w.area t)
  rintro (hlog | hplace)
  · exact hj.model hlog
  cases htask : t.task with
  | clear | saveModel _ | compile _ =>
    rw [htask] at ht
    cases ht
  | saveTensor case role tensor =>
    rw [htask] at hplace
    exact hplace.elim (htensor case role) hmanifest
  | recordExternal case role kind =>
    rw [htask] at hplace
    exact hmanifest hplace
  | infer case o =>
    rw [htask] at hplace
    exact hplace.elim (htensor case .candidate) hmanifest

section Staged

variable (hclear : clear.task = .clear)
  (hstart : (w.area clear).Leads b.files ∨ w.Vacant b) (hsave : save.task = .saveModel source)
  (hsupplies : ∀ t ∈ earlier ++ later, t.task.Supplies)
  (hj : ∀ t ∈ clear :: (earlier ++ save :: later), w.LogsAside source t)
  (hok : ((w.perform save).run (w.after b (clear :: earlier))).1 = .ok none)

include hclear hstart hsave hsupplies hj hok

/-- A model that was staged in a cleared directory, and not in place of the artifact, awaits its
compilation. Its file holds its bytes when it is not the manifest and no later turn writes there. -/
theorem awaits_of_staged (hspot : w.modelSpot source ≠ w.artifactSpot) :
    ∃ bytes, source.serialized = .ok bytes ∧
      w.Awaits source bytes (w.after b (clear :: (earlier ++ save :: later))) ∧
      (w.modelSpot source ≠ (w.area save).manifestSpot →
        (∀ t ∈ later, ¬ w.Places t (w.modelSpot source)) →
          (w.after b (clear :: (earlier ++ save :: later))).files.read
            (join w.root (Area.modelFile source.format)) = .ok bytes) := by
  have hcleared : w.Vacant (w.step b clear) :=
    step_clear_vacant hclear hstart (hj clear List.mem_cons_self).artifact
  have hbefore : w.Vacant (w.after (w.step b clear) earlier) := after_of_step w.Vacant hcleared
    fun t ht b h => h.supplied (hsupplies t (List.mem_append_left _ ht)) (hj t (by simp [ht]))
  have hsaves := hj save (by simp)
  obtain ⟨bytes, hb, hr, hread⟩ := step_saved hsave hsaves hok
  have hsaved : w.Awaits source bytes (w.step (w.after (w.step b clear) earlier) save) := by
    refine ⟨fun format => hr.of_root, hbefore.step ⟨hsaves.artifact, fun found hfound => ?_⟩ ?_⟩
    · rw [hsave] at hfound
      cases hfound
      exact hspot
    · rintro ⟨⟨o, ho⟩, -⟩
      rw [hsave] at ho
      cases ho
  have hlater : ∀ t ∈ later, t.task.Supplies ∧ w.LogsAside source t :=
    fun t ht => ⟨hsupplies t (List.mem_append_right _ ht), hj t (by simp [ht])⟩
  refine ⟨bytes, hb, ?_, fun hmanifest hfree => ?_⟩ <;>
    rw [after_cons, after_append, after_cons]
  · exact after_of_step (w.Awaits source bytes) hsaved
      fun t ht b h => h.step (hlater t ht).1 (hlater t ht).2
  · refine (after_of_step (fun b => w.Vacant b ∧
      b.files.read (join w.root (Area.modelFile source.format)) = .ok bytes)
      ⟨hsaved.vacant, hread hmanifest⟩ fun t ht b h => ?_).2
    exact ⟨h.1.supplied (hlater t ht).1 (hlater t ht).2,
      (h.1.supply_spares (hlater t ht).1).read h.2 (hfree t ht)⟩

/-- A model that was staged in a cleared directory, whatever tensors were staged around it, is told
apart from the artifact exactly when it is not put in place of the artifact and its file still
holds its bytes. With an extension that has neither dot nor slash that is so exactly when the
extension is not that of the artifact. -/
theorem staged_distinct_iff (hl : w.launcher.CompilesInPlace w.tools w.root) :
    ∃ bytes, source.serialized = .ok bytes ∧
    (w.Distinct source bytes (w.after b (clear :: (earlier ++ save :: later))) ↔
      w.modelSpot source ≠ w.artifactSpot ∧
        (w.after b (clear :: (earlier ++ save :: later))).files.read
          (join w.root (Area.modelFile source.format)) = .ok bytes) ∧
    ('.' ∉ source.format.extension.toList → '/' ∉ source.format.extension.toList →
      (w.Distinct source bytes (w.after b (clear :: (earlier ++ save :: later))) ↔
        source.format.extension ≠ "kmodel")) := by
  by_cases hspot : w.modelSpot source = w.artifactSpot
  · obtain ⟨bytes, hb, -, -⟩ := step_saved hsave (hj save (by simp)) hok
    have hnot : ¬ w.Distinct source bytes (w.after b (clear :: (earlier ++ save :: later))) :=
      fun hdistinct => hdistinct.apart hspot
    refine ⟨bytes, hb, ⟨fun hdistinct => absurd hdistinct hnot, fun h => absurd hspot h.1⟩,
      fun _ hslash => ?_⟩
    have hextension := (Area.location_modelFile_eq_artifact hslash w.root).mp hspot
    exact ⟨fun hdistinct => absurd hdistinct hnot, fun hne => absurd hextension hne⟩
  · obtain ⟨bytes, hb, hawaits, hread⟩ :=
      awaits_of_staged hclear hstart hsave hsupplies hj hok hspot
    refine ⟨bytes, hb, ⟨fun hdistinct => ?_, fun h => hawaits.distinct hl hspot h.2⟩,
      fun hdot hslash => ?_⟩
    · exact ⟨hspot, (hdistinct.compile [] (List.forall_mem_nil _) .raw).read⟩
    · have hmanifest : w.modelSpot source ≠ (w.area save).manifestSpot :=
        Area.location_model_ne_manifest (a := w.area save) hdot
      have hfree : ∀ t ∈ later, ¬ w.Places t (w.modelSpot source) := fun t ht =>
        not_places_modelSpot hdot hslash (hsupplies t (List.mem_append_right _ ht))
          (hj t (by simp [ht]))
      have hdistinct := hawaits.distinct hl hspot (hread hmanifest hfree)
      refine ⟨fun _ hextension => ?_, fun _ => hdistinct⟩
      exact hspot ((Area.location_modelFile_eq_artifact hslash w.root).mpr hextension)

end Staged

/-! ## A model of another origin -/

/-- The input of a case is staged. -/
def supplying : Turn := quietly (.saveTensor "case" .input one)

/-- An input is staged before the graph, and an inference is tried after it. -/
def graphStaging : List Turn :=
  quietly .clear :: ([supplying] ++ quietly (.saveModel graphSource) :: [inferring])

/-- The graph is staged. -/
theorem graph_saved : ((rehearsal.perform (quietly (.saveModel graphSource))).run
    (rehearsal.after (fresh []) (quietly .clear :: [supplying]))).1 = .ok none := by
  have hadmitted : Files.admits "w" (Area.tensorFile ⟨"w", .raw⟩ "case" .input) = .ok () := by rfl
  have hsupplied := (furnished_cleared rehearsal.tools .rehearsed (b := fresh []) rfl).saveTensor
    (t := supplying) rfl rfl rfl rfl hadmitted (show ∀ d ∈ one.shape, d < wordLimit by decide)
  rw [after_cons, after_cons, after_nil]
  exact (hsupplied.saveModel (t := quietly (.saveModel graphSource)) rfl rfl rfl offers_graph).1

/-- The graph and the artifact are told apart. -/
theorem graph_told_apart : ∃ bytes, graphSource.serialized = .ok bytes ∧
    rehearsal.Distinct graphSource bytes (rehearsal.after (fresh []) graphStaging) := by
  have hstart : (rehearsal.area (quietly .clear)).Leads (fresh []).files ∨
      rehearsal.Vacant (fresh []) := Or.inr fun bytes h => by cases h
  have hclear : (quietly .clear).task = .clear := rfl
  have hsave : (quietly (.saveModel graphSource)).task = .saveModel graphSource := rfl
  have hsupplies : ∀ t ∈ [supplying] ++ [inferring], t.task.Supplies := by
    have hfits : one.shape.Fits := show ∀ d ∈ one.shape, d < wordLimit by decide
    simpa [supplying, quietly, inferring, Task.Supplies] using hfits
  have hj : ∀ t ∈ graphStaging, rehearsal.LogsAside graphSource t := by
    have hquiet : ∀ task, rehearsal.LogsAside graphSource (quietly task) := by
      intro task
      constructor <;>
      · rintro ⟨path, hpath, -⟩
        cases hpath
    simp [graphStaging, hquiet, supplying, inferring]
  obtain ⟨bytes, hb, -, hplain⟩ := staged_distinct_iff hclear hstart hsave hsupplies hj
    graph_saved rehearsal_keepsTo.compiler
  exact ⟨bytes, hb, (hplain (by decide) (by decide)).mpr (by decide)⟩

/-- A model of another origin, with the extension of the artifact. -/
def foreignSource : ModelSource := ⟨⟨[1], .f32⟩, ⟨"tflite", "kmodel"⟩, .ok [0]⟩

/-- The model of another origin is staged, and then an input. -/
def foreignStaging : List Turn :=
  [quietly .clear, quietly (.saveModel foreignSource), supplying]

/-- The model of another origin was compiled in its own format. -/
def foreignCompiled : Bench (List Answer) :=
  rehearsal.after (fresh []) (foreignStaging ++ [quietly (.compile { inputFormat := "tflite" })])

theorem foreign_misplaced : Area.modelFile foreignSource.format = Area.artifactName := by decide

/-- After the staging the model is in place of the artifact. -/
theorem foreign_furnished (answers : List Answer) : ∃ m content,
    rehearsal.Furnished (· = answers) 0 m content (rehearsal.after (fresh answers) foreignStaging) ∧
      Area.Provides ⟨"w", .raw⟩ "case" foreignSource m content := by
  have hbytes : foreignSource.serialized = .ok [0] := rfl
  have hoffers : Area.Offers ⟨"w", .raw⟩ (Area.modelFile foreignSource.format) := by
    rw [foreign_misplaced]
    exact Area.offers_artifact (by rfl)
  have hne : Area.modelFile foreignSource.format ≠
      Area.tensorFile ⟨"w", .raw⟩ "case" .input := by
    rw [foreign_misplaced]
    exact (Area.tensorFile_ne_fixed _ Area.artifact_fixed "case" .input).symm
  obtain ⟨m, content, hstaged, hprovides, -⟩ := furnished_sources rehearsal.tools .rehearsed
    (b := fresh answers) rfl hbytes hoffers hne
  exact ⟨m, content, hstaged, hprovides⟩

/-- A runtime that ends well is taken at its word though nothing was compiled. -/
theorem foreign_inferred : ((rehearsal.perform inferring).run
    (rehearsal.after (fresh [⟨some [0, 0, 0, 0], 0⟩]) foreignStaging)).1 = .ok none := by
  obtain ⟨m, content, hstaged, hprovides⟩ := foreign_furnished [⟨some [0, 0, 0, 0], 0⟩]
  have hartifact : Area.Stores ⟨"w", .raw⟩ content Area.artifactName := by
    rw [← foreign_misplaced]
    exact hprovides.modelFile
  have hready := hprovides.inferable hartifact (o := {}) rfl rfl (by rfl)
  exact (hstaged.infer (t := inferring) rfl rfl hready rfl
    (by rintro _ rfl; exact Launcher.rehearsed_answers ⟨some [0, 0, 0, 0], 0⟩ []) rfl).1

/-- A compilation removes the model and launches nothing. -/
theorem foreign_removed : foreignCompiled.ledger = [] ∧
    ((rehearsal.area compiling).model.run foreignCompiled.files).1.toOption = none := by
  obtain ⟨m, content, hstaged, hprovides⟩ := foreign_furnished []
  obtain ⟨bytes, hmodel⟩ := hprovides.model
  have hsubmitted := hprovides.submitted (o := { inputFormat := "tflite" }) rfl rfl rfl (by rfl)
  have hcompiled := hstaged.compile_misplaced (t := quietly (.compile { inputFormat := "tflite" }))
    rfl rfl hsubmitted fun model hm => by
      rw [hmodel] at hm
      cases hm
      exact foreign_misplaced
  have hrun : foreignCompiled = rehearsal.step (rehearsal.after (fresh []) foreignStaging)
      (quietly (.compile { inputFormat := "tflite" })) := by
    rw [foreignCompiled, after_append, after_cons, after_nil]
  rw [hrun]
  refine ⟨List.length_eq_zero_iff.mp hcompiled.ledger, ?_⟩
  have hstocked := hcompiled.area compiling
  have hgone := hstocked.not_isFile (Area.offers_artifact (by rfl)) (Function.update_self ..)
  have hfile : (Area.modelEntryOf foreignSource bytes).file = Area.artifactName := foreign_misplaced
  rw [Area.model_run hstocked.lists, hmodel]
  simp only [hfile, hgone, Bool.false_eq_true, if_false]
  rfl

/-- With the extension of the artifact an inference succeeds though nothing was compiled, and a
compilation in the format of the model removes the model and launches nothing. -/
theorem foreign_confused :
    ((rehearsal.perform inferring).run
      (rehearsal.after (fresh [⟨some [0, 0, 0, 0], 0⟩]) foreignStaging)).1 = .ok none ∧
    foreignCompiled.ledger = [] ∧
    ((rehearsal.area compiling).model.run foreignCompiled.files).1.toOption = none ∧
    ∀ bytes, ¬ rehearsal.Distinct foreignSource bytes
      (rehearsal.after (fresh [⟨some [0, 0, 0, 0], 0⟩]) foreignStaging) := by
  refine ⟨foreign_inferred, foreign_removed.1, foreign_removed.2, fun bytes hdistinct => ?_⟩
  have hmissing := (hdistinct.infer [] (List.forall_mem_nil _) (rehearsal.still_nil _) inferring
    "case" {} rfl).1
  rw [after_nil, foreign_inferred] at hmissing
  cases hmissing

end Site

end NetTrial
