import NetTrial.Proofs.Sessions
/-!
# What is in order when a tool is launched

A launch is prepared in three stages: the guards read the directory, the output of an earlier
launch is removed, and the tool runs on what is left. The removal stands between the guards and
the tool, so what a guard has seen need not be what the tool meets. It is, when all that the
guards look for lies elsewhere: the records of the area are its own files, and neither the model
nor the calibration data is the artifact.
-/

namespace NetTrial

open NetTrial.Path Text NetTrial.Action

/-! ## Sightings -/

/-- A launch as the tool meets it. -/
structure Sighting where
  /-- What is asked. -/
  request : Request
  /-- The files that are there. -/
  files : Files
  /-- What comes of it. -/
  result : LaunchResult

/-- An event on the ledger tells the tool, all arguments and the exit code of a launch. -/
def Event.Tells (event : Event) (s : Sighting) : Prop :=
  event = Event.of s.request s.result event.note

/-- The state of a launcher shows all that it was asked, in order. -/
def Launcher.Sees {σ : Type} (l : Launcher σ) (seen : σ → List Sighting) : Prop :=
  ∀ request fs t, seen (l.launch request fs t).2.2 =
    seen t ++ [⟨request, fs, (l.launch request fs t).1⟩]

/-! ## What the options ask for -/

namespace CompileOptions

variable {o : CompileOptions}

theorem checkCalibration_ok {files : Files} {r : Request}
    (h : o.checkCalibration files r = .ok ()) :
    (o.inferenceType = .uint8 → o.dataset ≠ none) ∧
      ∀ path, o.dataset = some path → files.pathExists path = true := by
  rw [checkCalibration] at h
  cases hd : o.dataset with
  | none =>
    simp only [hd] at h
    refine ⟨fun hquantized => ?_, nofun⟩
    rw [if_pos (by simp [requiresCalibration, hquantized])] at h
    cases h
  | some path =>
    simp only [hd] at h
    refine ⟨fun _ => nofun, fun found hfound => ?_⟩
    cases hfound
    by_cases hp : files.pathExists path = true
    · exact hp
    · rw [if_neg hp] at h
      cases h

theorem checkInputs_ok {inputs : List TensorEntry} (h : o.checkInputs inputs = .ok ())
    (hquantized : o.inferenceType = .uint8) (hinput : o.useFloatInput = false) :
    ∀ e ∈ inputs, e.dtype ≠ ElementType.f32.name := by
  rw [checkInputs, if_pos ⟨hquantized, hinput⟩] at h
  cases hf : inputs.find? fun e => e.dtype == ElementType.f32.name with
  | some e =>
    rw [hf] at h
    cases h
  | none =>
    intro e he hfloat
    exact List.find?_eq_none.mp hf e he (by simp [hfloat])

end CompileOptions

namespace Area

variable {σ : Type} {a : Area} {fs fs' : Files} {m : Manifest}

/-! ## Records of the area's own files -/

/-- A tensor is recorded with a case that may be staged and the file that the area gives it. -/
structure Owns (a : Area) (e : TensorEntry) : Prop where
  /-- The case may be staged. -/
  case_ok : checkCase e.case = .ok ()
  /-- The file is the area's for case and role. -/
  file : e.file = a.tensorFile e.case e.role

theorem Owns.isName {e : TensorEntry} (h : a.Owns e) : IsName e.file := by
  rw [h.file]
  exact a.isName_tensorFile (checkCase_ok h.case_ok).1 e.role

theorem Owns.location_eq {e : TensorEntry} (h : a.Owns e) :
    location (join a.root e.file) = location (a.tensorPath e.case e.role) := by
  rw [h.file, tensorPath]

/-- A manifest records tensors that the area owns and a model that is not the artifact. -/
structure Orders (a : Area) (m : Manifest) : Prop where
  /-- The area owns the tensors. -/
  tensors : ∀ e ∈ m.tensors, a.Owns e
  /-- The model is not the artifact. -/
  model : ∀ model, m.model = some model → location (join a.root model.file) ≠ a.artifactSpot

theorem orders_empty (a : Area) : a.Orders .empty := ⟨nofun, nofun⟩

theorem Orders.record (h : a.Orders m) {e : TensorEntry} (he : a.Owns e) :
    a.Orders (m.record e) where
  tensors old hold := by
    rcases mem_record hold with ⟨hold, -⟩ | rfl
    · exact h.tensors old hold
    · exact he
  model := h.model

theorem Orders.withModel (h : a.Orders m) {model : ModelEntry}
    (hmodel : location (join a.root model.file) ≠ a.artifactSpot) :
    a.Orders { m with model := some model } where
  tensors := h.tensors
  model found hfound := by
    cases hfound
    exact hmodel

/-- Whatever stands in place of the manifest says nothing that is out of order. -/
def Orderly (a : Area) (fs : Files) : Prop := ∀ m, a.Says fs m → a.Orders m

theorem Orderly.orders (h : a.Orderly fs) (hl : a.Lists fs m) : a.Orders m := by
  rcases hl.says_or_empty with hsaid | rfl
  · exact h m hsaid
  · exact a.orders_empty

theorem Orderly.of_spares {spots : Location → Prop} (h : a.Orderly fs)
    (hs : fs.Spares spots fs') (hspot : ¬ spots a.manifestSpot) : a.Orderly fs' :=
  fun m hsaid => h m (hsaid.of_file fun bytes => (hs.file _ hspot bytes).mp)

theorem orderly_withManifest (h : a.Orders m) : a.Orderly (a.withManifest fs m) := by
  intro found hsaid
  rw [says_withManifest hsaid]
  exact h

/-- Clearing keeps the order, success or not. -/
theorem Orderly.reset (h : a.Orderly fs) : a.Orderly (a.reset.run fs).2 :=
  fun m hsaid => h m (hsaid.of_file fun _ => reset_old)

/-- A file and its record keep the order, however far they come. -/
theorem Orderly.entered (h : a.Orderly fs) {path : String} {bytes : Bytes}
    {change : Manifest → Manifest} {r : Except Failure Unit}
    (hpath : location path ≠ a.manifestSpot)
    (hchange : ∀ m : Manifest, a.Orders m → a.Orders (change m))
    (hentered : a.Entered path bytes change fs r fs') : a.Orderly fs' := by
  refine hentered.keeps hpath Orderly.of_spares (fun stored m hstored hl => ?_) h
  exact orderly_withManifest (hchange m (hstored.orders hl))

theorem Orderly.stageTensor (h : a.Orderly fs) (case : String) (role : Role) (t : Tensor) :
    a.Orderly ((a.stageTensor case role t).run fs).2 := by
  rcases a.stageTensor_ends case role t fs with ⟨e, he⟩ | ⟨bytes, r, fs', hc, -, hr, hentered⟩
  · rw [he]
    exact h
  · rw [hr]
    refine h.entered (a.location_tensorPath_ne_fixed manifest_fixed case role) ?_ hentered
    intro m hm
    exact hm.record ⟨hc, rfl⟩

theorem Orderly.stageModel (h : a.Orderly fs) {source : ModelSource}
    (hmanifest : location (a.modelPath source) ≠ a.manifestSpot)
    (hartifact : location (a.modelPath source) ≠ a.artifactSpot) :
    a.Orderly ((a.stageModel source).run fs).2 := by
  rcases a.stageModel_ends source fs with ⟨e, he⟩ | ⟨bytes, r, fs', -, hr, hentered⟩
  · rw [he]
    exact h
  · rw [hr]
    refine h.entered hmanifest ?_ hentered
    intro m hm
    exact hm.withModel hartifact

theorem Orderly.recordExternal (h : a.Orderly fs) (case : String) (role : Role)
    (kind : ElementType) : a.Orderly ((a.recordExternal case role kind).run fs).2 := by
  rcases a.recordExternal_ends case role kind fs with
    ⟨e, he⟩ | ⟨bytes, told, m, hc, -, -, -, hl, hr⟩
  · rw [he]
    exact h
  · rw [hr]
    exact orderly_withManifest ((h.orders hl).record ⟨hc, rfl⟩)

/-! ## The compiler -/

/-- All is in order where the compiler is launched. -/
structure CompileReady (a : Area) (c : ToolCommand) (o : CompileOptions) (m : Manifest)
    (model : ModelEntry) (s : Sighting) : Prop where
  /-- The compiler is asked to compile the model to the artifact. -/
  request : s.request = c.request .compiler
    (["compile", join a.root model.file, a.artifactPath] ++ o.toArgs) a.root
  /-- The manifest is there. -/
  listed : a.Lists s.files m
  /-- It records the model. -/
  recorded : m.model = some model
  /-- The file of the model is there. -/
  modelFile : s.files.isFile (join a.root model.file) = true
  /-- The format that is named is that of the model. -/
  modelFormat : o.inputFormat = model.format
  /-- The file of some recorded input is there. -/
  input : ∃ e ∈ m.tensors, e.role = .input ∧ s.files.isFile (join a.root e.file) = true
  /-- No artifact is there. -/
  artifact : s.files.pathExists a.artifactPath = false
  /-- The calibration data that is named is there. -/
  dataset : ∀ path, o.dataset = some path → s.files.pathExists path = true
  /-- A quantized compilation names calibration data. -/
  calibrated : o.inferenceType = .uint8 → o.dataset ≠ none
  /-- A quantized compilation without floating-point input has no such input to work on. -/
  quantized : o.inferenceType = .uint8 → o.useFloatInput = false → ∀ e ∈ m.tensors,
    e.role = .input → s.files.isFile (join a.root e.file) = true →
      e.dtype ≠ ElementType.f32.name

/-- What the guards of a compilation have seen when they let it pass. -/
theorem prepareCompile_grants (a : Area) (c : ToolCommand) (o : CompileOptions) (fs : Files) :
    (a.prepareCompile c o).Ends fs (fun _ _ => True) fun r _ => ∃ m model, a.Lists fs m ∧
      m.model = some model ∧ r.2 = join a.root model.file ∧
      fs.isFile (join a.root model.file) = true ∧ o.inputFormat = model.format ∧
      (∃ e ∈ m.tensors, e.role = .input ∧ a.holds fs e = true) ∧
      o.checkCalibration fs r.1 = .ok () ∧
      o.checkInputs (m.tensors.filter fun e => e.role == .input && a.holds fs e) = .ok () := by
  rw [prepareCompile]
  refine .bind ((a.model_ends fs).mono (fun _ _ _ => trivial) ?_)
  rintro _ _ ⟨rfl, m, model, hl, hm, rfl, hfile⟩
  refine .bind ((a.stagedInputs_ends _).mono (fun _ _ _ => trivial) ?_)
  rintro inputs _ ⟨rfl, m', hl', rfl⟩
  obtain rfl := hl.unique hl'
  refine ends_guard (fun _ => trivial) fun hsome => ?_
  refine ends_guard (fun _ => trivial) fun hformat => ?_
  refine ends_get_bind ?_
  refine .bind (ends_settle (fun _ _ => trivial) fun _ hcalibration => ?_)
  refine .bind (ends_settle (fun _ _ => trivial) fun _ hinputs => ?_)
  refine .bind ⟨fun _ => trivial, fun _ => ends_pure ?_⟩
  refine ⟨m, model, hl, hm, rfl, hfile, Classical.not_not.mp hformat, ?_, hcalibration, hinputs⟩
  obtain ⟨e, he⟩ := List.exists_mem_of_ne_nil _ fun hn => hsome (List.isEmpty_iff.mpr hn)
  rw [List.mem_filter, Bool.and_eq_true, beq_iff_eq] at he
  exact ⟨e, he⟩

/-- What the guards of a compilation have seen is there when the compiler is launched, since
only the artifact is removed in between. -/
theorem prepareCompile_ready {c : ToolCommand} {o : CompileOptions} {request : Request}
    {path : String} (h : a.Orderly fs)
    (hdata : ∀ path, o.dataset = some path → location path ≠ a.artifactSpot)
    (hp : (a.prepareCompile c o).run fs = (.ok (request, path), fs')) (result : LaunchResult) :
    ∃ m model, a.CompileReady c o m model ⟨request, fs', result⟩ := by
  obtain ⟨hrequest, hs, -, hfrees, -⟩ := (a.prepareCompile_ends c o fs).of_ok hp
  obtain ⟨m, model, hl, hm, hpath, hfile, hformat, ⟨e, he, hrole, hholds⟩, hcalibration, hinputs⟩ :=
    (a.prepareCompile_grants c o fs).of_ok hp
  dsimp only at hrequest hpath hcalibration
  have horders := h.orders hl
  have hother : ∀ e ∈ m.tensors, location (join a.root e.file) ≠ a.artifactSpot := by
    intro e he
    rw [(horders.tensors e he).location_eq]
    exact a.location_tensorPath_ne_fixed artifact_fixed e.case e.role
  have hs' : fs'.Stands a.root := hfrees.spares.stands hs
  obtain ⟨hcalibrated, hdataset⟩ := CompileOptions.checkCalibration_ok hcalibration
  refine ⟨m, model, hpath ▸ hrequest, ?_, hm, ?_, hformat, ⟨e, he, hrole, ?_⟩, ?_, ?_,
    hcalibrated, ?_⟩
  · exact hl.congr hs hs' (hfrees.same _ a.artifactSpot_ne_manifestSpot.symm)
  · exact hfrees.isFile hfile (horders.model model hm)
  · exact hfrees.isFile hholds (hother e he)
  · refine Files.pathExists_eq_false ?_
    rw [a.location_artifactPath]
    exact hfrees.gone
  · intro data hd
    exact hfrees.pathExists (hdataset data hd) (hdata data hd)
  · intro hquantized hfloat e he hrole hthere
    refine CompileOptions.checkInputs_ok hinputs hquantized hfloat e (List.mem_filter.mpr ⟨he, ?_⟩)
    have hname := (horders.tensors e he).isName
    -- an input that is there now was there for the guard
    obtain ⟨-, ha, bytes, hget⟩ := (Files.isFile_join_iff hname).mp hthere
    have hother' := hother e he
    rw [location_join a.root hname] at hother'
    rw [hfrees.same _ hother'] at hget
    rw [Bool.and_eq_true, beq_iff_eq]
    exact ⟨hrole, (Files.isFile_join_iff hname).mpr ⟨hs, ha, bytes, hget⟩⟩

/-! ## The runtime -/

/-- All is in order where the runtime is launched. -/
structure InferReady (a : Area) (c : ToolCommand) (case : String) (o : InferOptions)
    (m : Manifest) (s : Sighting) : Prop where
  /-- The runtime is asked to run the artifact on the input. -/
  request : s.request = c.request .runtime (["infer", a.artifactPath, a.tensorPath case .candidate,
    "--dataset", a.tensorPath case .input] ++ o.toArgs) a.root
  /-- The manifest is there. -/
  listed : a.Lists s.files m
  /-- It records the input, with the file that the runtime is asked to read. -/
  recorded : ∃ e, m.tensor? case .input = some e ∧ e.file = a.tensorFile case .input
  /-- The file of the input is there. -/
  input : s.files.isFile (a.tensorPath case .input) = true
  /-- The artifact is there. -/
  artifact : s.files.isFile a.artifactPath = true
  /-- No candidate is there. -/
  candidate : s.files.pathExists (a.tensorPath case .candidate) = false
  /-- The format that is named is that of the area. -/
  format : o.datasetFormat = a.format

/-- What the guards of an inference have seen when they let it pass. -/
theorem prepareInfer_grants (a : Area) (c : ToolCommand) (case : String) (o : InferOptions)
    (fs : Files) :
    (a.prepareInfer c case o).Ends fs (fun _ _ => True) fun _ _ => ∃ m e, a.Lists fs m ∧
      m.tensor? case .input = some e ∧ a.holds fs e = true ∧ o.datasetFormat = a.format := by
  rw [prepareInfer]
  refine ends_get_bind (ends_guard (fun _ => trivial) fun _ => ?_)
  refine .bind ((a.hasTensor_ends case .input fs).mono (fun _ _ _ => trivial) ?_)
  rintro there _ ⟨rfl, m, hl, rfl⟩
  refine ends_guard (fun _ => trivial) fun hthere => ?_
  refine ends_guard (fun _ => trivial) fun hformat => ?_
  refine .bind ⟨fun _ => trivial, fun _ => ends_pure ?_⟩
  cases he : m.tensor? case .input with
  | none => simp [he] at hthere
  | some e =>
    rw [he] at hthere
    exact ⟨m, e, hl, he, by simpa using hthere, Classical.not_not.mp hformat⟩

/-- What the guards of an inference have seen is there when the runtime is launched, since only
the candidate is removed in between. -/
theorem prepareInfer_ready {c : ToolCommand} {case : String} {o : InferOptions}
    {request : Request} (h : a.Orderly fs)
    (hp : (a.prepareInfer c case o).run fs = (.ok request, fs')) :
    fs.Frees (a.candidateSpot case) fs' ∧
      ∀ result, ∃ m, a.InferReady c case o m ⟨request, fs', result⟩ := by
  obtain ⟨hrequest, hartifact, hs, -, hfrees⟩ := (a.prepareInfer_ends c case o fs).of_ok hp
  obtain ⟨m, e, hl, he, hholds, hformat⟩ := (a.prepareInfer_grants c case o fs).of_ok hp
  have howns := (h.orders hl).tensors e (List.mem_of_find?_eq_some he)
  obtain ⟨rfl, hrole⟩ := isFor_iff.mp (List.find?_some he)
  have hfile : e.file = a.tensorFile e.case .input := hrole ▸ howns.file
  have hcase := (checkCase_ok howns.case_ok).1
  replace hfrees := hfrees hcase
  have hinput : fs.isFile (a.tensorPath e.case .input) = true := by
    rw [tensorPath, ← hfile]
    exact hholds
  refine ⟨hfrees, fun result => ⟨m, hrequest, ?_, ⟨e, he, hfile⟩, ?_, ?_, ?_, hformat⟩⟩
  · refine hl.congr hs (hfrees.spares.stands hs) ?_
    exact hfrees.same _ (a.candidateSpot_ne_manifestSpot e.case).symm
  · exact hfrees.isFile hinput (a.tensorPath_ne_candidateSpot hcase (by decide))
  · refine hfrees.isFile hartifact ?_
    rw [a.location_artifactPath]
    exact (a.candidateSpot_ne_artifactSpot e.case).symm
  · exact Files.pathExists_eq_false hfrees.gone

end Area

end NetTrial
