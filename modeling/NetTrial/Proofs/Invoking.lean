import NetTrial.Trial.Setup
import NetTrial.Proofs.Frames
/-!
# What an invocation does

An invocation prepares its request, launches the tool on the files that are left then, and
collects what the tool wrote. It ends in one of few ways, and each says how the bench it leaves
came about. A preparation changes nothing when it refuses; when it does not, the output of an
earlier launch is gone.
-/

namespace NetTrial

open NetTrial.Path Text Digest NetTrial.Action

namespace Files

variable {fs fs' : Files} {spot : Location}

/-- The file at a location, if there was one, is gone, and nothing else is. -/
structure Frees (spot : Location) (fs fs' : Files) : Prop where
  /-- The location is free. -/
  gone : fs'.get? spot = none
  /-- Everything else is as it was. -/
  same : ∀ loc, loc ≠ spot → fs'.get? loc = fs.get? loc
  /-- No directory was there. -/
  noDirectory : fs.get? spot ≠ some .directory

theorem Frees.spares (h : fs.Frees spot fs') : fs.Spares (· = spot) fs' := by
  refine ⟨fun loc hl bytes => by rw [h.same loc hl], fun loc hd => ?_⟩
  rw [isDirectoryAt_iff] at hd ⊢
  rw [h.same loc, hd]
  rintro rfl
  exact h.noDirectory hd

/-- Nothing changes but what is at one location, and a directory stays there. -/
structure Touches (spot : Location) (fs fs' : Files) : Prop where
  /-- Everything else is as it was. -/
  same : ∀ loc, loc ≠ spot → fs'.get? loc = fs.get? loc
  /-- A directory is not replaced. -/
  directory : fs.get? spot = some .directory → fs'.get? spot = some .directory

theorem Touches.spares (h : fs.Touches spot fs') : fs.Spares (· = spot) fs' := by
  refine ⟨fun loc hl bytes => by rw [h.same loc hl], fun loc hd => ?_⟩
  rw [isDirectoryAt_iff] at hd ⊢
  by_cases hl : loc = spot
  · subst hl
    exact h.directory hd
  · rw [h.same loc hl, hd]

/-- What is found at a path is still found when something else goes. -/
theorem Frees.pathExists (h : fs.Frees spot fs') {path : String}
    (hp : fs.pathExists path = true) (hne : location path ≠ spot) :
    fs'.pathExists path = true := by
  obtain ⟨loc, node, hlocate⟩ := pathExists_iff.mp hp
  obtain ⟨hc, hf, hg⟩ := locate_eq_ok.mp hlocate
  have hsame : fs'.get? loc = some node := by
    rw [h.same loc ((locate_location hlocate).1 ▸ hne), hg]
  refine pathExists_iff.mpr ⟨loc, node, locate_eq_ok.mpr ⟨hc, ?_, hsame⟩⟩
  refine follow_mono h.spares.directory hf ?_
  rw [hsame]
  rfl

theorem Frees.isFile (h : fs.Frees spot fs') {path : String} (hp : fs.isFile path = true)
    (hne : location path ≠ spot) : fs'.isFile path = true := by
  obtain ⟨bytes, hread⟩ := isFile_iff.mp hp
  exact isFile_iff.mpr ⟨bytes, h.spares.read hread hne⟩

theorem Frees.touches (h : fs.Frees spot fs') : fs.Touches spot fs' :=
  ⟨h.same, fun hd => absurd hd h.noDirectory⟩

theorem Frees.shrinks (h : fs.Frees spot fs') : fs.Shrinks fs' := by
  intro loc
  by_cases hl : loc = spot
  · exact Or.inl (hl ▸ h.gone)
  · exact Or.inr (h.same loc hl)

theorem Touches.trans {fs'' : Files} (h : fs.Touches spot fs') (h' : fs'.Touches spot fs'') :
    fs.Touches spot fs'' :=
  ⟨fun loc hl => (h'.same loc hl).trans (h.same loc hl), fun hd => h'.directory (h.directory hd)⟩

end Files

namespace Area

variable {σ : Type} {a : Area} {fs fs' : Files}

/-! ## Removing what is stale -/

/-- A stale file is removed, or nothing is changed. -/
theorem removeStale_ends (path : String) (fs : Files) :
    (removeStale path).Ends fs (fun _ fs' => fs' = fs)
      fun _ fs' => fs.Spares (· = location path) fs' ∧ fs.Shrinks fs' := by
  rw [removeStale]
  refine ends_get_bind ?_
  cases hr : fs.removeFile path with
  | ok fs' =>
    refine ends_ok rfl ⟨Files.removeFile_spares hr, ?_⟩
    rw [(Files.removeFile_ok hr).1]
    exact Files.shrinks_drop fs _
  | error e =>
    cases e with
    | notFound => exact ends_pure ⟨Files.Spares.refl _ _, Files.Shrinks.refl _⟩
    | _ => exact ends_throw rfl

/-- In a standing directory the place of a stale file is free afterwards. -/
theorem removeStale_frees (hs : fs.Stands a.root) {name : String} (hn : IsName name)
    (h : (removeStale (join a.root name)).run fs = (.ok (), fs')) :
    fs.Frees (location a.root ++ [name]) fs' := by
  rw [removeStale, Action.run_get_bind, hs.removeFile_join hn] at h
  cases ha : Files.admits a.root name with
  | error e =>
    rw [ha] at h
    cases e with
    | notFound => exact absurd ha (admits_ne_notFound hn)
    | _ => cases h
  | ok _ =>
    rw [ha] at h
    cases hg : fs.get? (location a.root ++ [name]) with
    | none =>
      simp only [Except.bind, hg] at h
      cases h
      exact ⟨hg, fun _ _ => rfl, by simp [hg]⟩
    | some node =>
      cases node with
      | directory =>
        simp only [Except.bind, hg] at h
        cases h
      | file bytes =>
        simp only [Except.bind, hg] at h
        cases h
        refine ⟨?_, fun loc hl => Files.get?_drop_of_ne fs hl, by simp [hg]⟩
        rw [Files.get?_drop fs _ (by simp), if_pos (by simp)]

/-! ## Preparing -/

/-- Where the artifact is. -/
def artifactSpot (a : Area) : Location := location a.root ++ [artifactName]

theorem artifactPath_eq (a : Area) : a.artifactPath = join a.root artifactName := rfl

theorem location_artifactPath (a : Area) : location a.artifactPath = a.artifactSpot :=
  location_join a.root isName_artifact

theorem artifactSpot_ne_manifestSpot (a : Area) : a.artifactSpot ≠ a.manifestSpot := by
  exact entry_ne (by decide)

/-- A manifest that records a model was read in a standing area. -/
theorem Lists.stands_of_model {m : Manifest} {model : ModelEntry} (h : a.Lists fs m)
    (hm : m.model = some model) : fs.Stands a.root ∧ Files.admits a.root manifestName = .ok () := by
  rcases lists_iff.mp h with ⟨bytes, cs, hb, -, -⟩ | ⟨-, hempty⟩
  · obtain ⟨hs, ha, -⟩ := (Files.read_join_eq_ok isName_manifest).mp hb
    exact ⟨hs, ha⟩
  · rw [hempty] at hm
    cases hm

/-- The model that is found is the recorded one, and its file is there. -/
theorem model_ends (a : Area) (fs : Files) :
    a.model.Ends fs (fun _ fs' => fs' = fs) fun found fs' => fs' = fs ∧ ∃ m model,
      a.Lists fs m ∧ m.model = some model ∧ found = (join a.root model.file, model.format) ∧
      fs.isFile (join a.root model.file) = true := by
  rcases a.lists_or_fails fs with ⟨m, hl⟩ | ⟨e, he⟩
  · have hrun := model_run hl
    cases hm : m.model with
    | none =>
      rw [hm] at hrun
      exact ends_error hrun rfl
    | some model =>
      simp only [hm] at hrun
      by_cases hf : fs.isFile (join a.root model.file) = true
      · rw [if_pos hf] at hrun
        exact ends_ok hrun ⟨rfl, m, model, hl, hm, rfl, hf⟩
      · rw [if_neg hf] at hrun
        exact ends_error hrun rfl
  · exact ends_error (run_bind_of_error he _) rfl

theorem stagedInputs_ends (a : Area) (fs : Files) :
    a.stagedInputs.Ends fs (fun _ fs' => fs' = fs) fun inputs fs' => fs' = fs ∧ ∃ m,
      a.Lists fs m ∧ inputs = m.tensors.filter fun e => e.role == .input && a.holds fs e := by
  rcases a.lists_or_fails fs with ⟨m, hl⟩ | ⟨e, he⟩
  · exact ends_ok (stagedInputs_run hl) ⟨rfl, m, hl, rfl⟩
  · exact ends_error (run_bind_of_error he _) rfl

/-- A compilation is prepared in a standing area and frees the place of the artifact; when it
is refused nothing changes. -/
theorem prepareCompile_ends (a : Area) (c : ToolCommand) (o : CompileOptions) (fs : Files) :
    (a.prepareCompile c o).Ends fs (fun _ fs' => fs' = fs) fun r fs' =>
      r.1 = c.request .compiler (["compile", r.2, a.artifactPath] ++ o.toArgs) a.root ∧
        fs.Stands a.root ∧ Files.admits a.root manifestName = .ok () ∧
        fs.Frees a.artifactSpot fs' ∧ ∃ file, r.2 = join a.root file := by
  rw [prepareCompile]
  refine .bind ((a.model_ends fs).mono (fun _ _ h => h) ?_)
  rintro _ fs₁ ⟨rfl, m, model, hl, hm, rfl, -⟩
  obtain ⟨hs, ha⟩ := hl.stands_of_model hm
  refine .bind ((a.stagedInputs_ends fs₁).mono (fun _ _ h => h) ?_)
  rintro inputs _ ⟨rfl, -⟩
  refine ends_guard (fun _ => rfl) fun _ => ?_
  refine ends_guard (fun _ => rfl) fun _ => ?_
  refine ends_get_bind ?_
  refine .bind (ends_settle (fun _ _ => rfl) fun _ _ => ?_)
  refine .bind (ends_settle (fun _ _ => rfl) fun _ _ => ?_)
  refine .bind ⟨fun hr => ?_, fun hr => ?_⟩
  · exact (removeStale_ends a.artifactPath _).of_error hr
  · exact ends_pure ⟨rfl, hs, ha, removeStale_frees hs isName_artifact hr, model.file, rfl⟩

theorem hasTensor_ends (a : Area) (case : String) (role : Role) (fs : Files) :
    (a.hasTensor case role).Ends fs (fun _ fs' => fs' = fs) fun there fs' => fs' = fs ∧ ∃ m,
      a.Lists fs m ∧ there = (m.tensor? case role).any (a.holds fs) := by
  rcases a.lists_or_fails fs with ⟨m, hl⟩ | ⟨e, he⟩
  · exact ends_ok (hasTensor_run hl case role) ⟨rfl, m, hl, rfl⟩
  · exact ends_error (run_bind_of_error he _) rfl

/-- Where the candidate of a case is. -/
def candidateSpot (a : Area) (case : String) : Location := location (a.tensorPath case .candidate)

theorem candidateSpot_eq {case : String} (h : '/' ∉ case.toList) :
    a.candidateSpot case = location a.root ++ [a.tensorFile case .candidate] :=
  location_join a.root (a.isName_tensorFile h .candidate)

/-- No other tensor of a case is where its candidate is. -/
theorem tensorPath_ne_candidateSpot (a : Area) {case : String} (h : '/' ∉ case.toList)
    {role : Role} (hrole : role ≠ .candidate) :
    location (a.tensorPath case role) ≠ a.candidateSpot case := by
  rw [candidateSpot_eq h, tensorPath, location_join a.root (a.isName_tensorFile h role)]
  exact entry_ne fun he => hrole (tensorFile_inj he).2.1

theorem candidateSpot_ne_manifestSpot (a : Area) (case : String) :
    a.candidateSpot case ≠ a.manifestSpot :=
  a.location_tensorPath_ne_fixed manifest_fixed case .candidate

theorem candidateSpot_ne_artifactSpot (a : Area) (case : String) :
    a.candidateSpot case ≠ a.artifactSpot :=
  a.location_tensorPath_ne_fixed artifact_fixed case .candidate

/-- An inference is prepared when the artifact is there, and frees the place of the candidate;
when it is refused nothing changes. -/
theorem prepareInfer_ends (a : Area) (c : ToolCommand) (case : String) (o : InferOptions)
    (fs : Files) :
    (a.prepareInfer c case o).Ends fs (fun _ fs' => fs' = fs) fun request fs' =>
      request = c.request .runtime (["infer", a.artifactPath, a.tensorPath case .candidate,
          "--dataset", a.tensorPath case .input] ++ o.toArgs) a.root ∧
        fs.isFile a.artifactPath = true ∧ fs.Stands a.root ∧
        (fs.Spares (· = a.candidateSpot case) fs' ∧ fs.Shrinks fs') ∧
        ('/' ∉ case.toList → fs.Frees (a.candidateSpot case) fs') := by
  rw [prepareInfer]
  refine ends_get_bind ?_
  refine ends_guard (fun _ => rfl) fun hf => ?_
  have hartifact : fs.isFile a.artifactPath = true := by simpa using hf
  obtain ⟨hs, -⟩ := (Files.isFile_join_iff isName_artifact).mp hartifact
  refine .bind ((a.hasTensor_ends case .input fs).mono (fun _ _ h => h) ?_)
  rintro there fs₁ ⟨rfl, -⟩
  refine ends_guard (fun _ => rfl) fun _ => ?_
  refine ends_guard (fun _ => rfl) fun _ => ?_
  refine .bind ⟨fun hr => ?_, fun hr => ?_⟩
  · exact (removeStale_ends (a.tensorPath case .candidate) _).of_error hr
  · refine ends_pure ⟨rfl, hartifact, hs, ?_, fun hc => ?_⟩
    · exact (removeStale_ends (a.tensorPath case .candidate) _).of_ok hr
    · rw [candidateSpot_eq hc]
      exact removeStale_frees hs (a.isName_tensorFile hc .candidate) hr

/-! ## Launching -/

theorem launchTool_run (l : Launcher σ) (r : Request) (note : String) (b : Bench σ) :
    (launchTool l r note).run b =
      ((b.launch l r note).1.mapError (.launch r.tool), (b.launch l r note).2) := rfl

theorem launch_ledger (l : Launcher σ) (r : Request) (note : String) (b : Bench σ) :
    (b.launch l r note).2.ledger = b.ledger ++ [Event.of r (b.launch l r note).1 note] := rfl

/-- The tool ran and ended well. -/
def Succeeds (l : Launcher σ) (r : Request) (note : String) (b : Bench σ) : Prop :=
  ∃ outcome, (b.launch l r note).1 = .ok outcome ∧ outcome.success = true

theorem launchTool_ends (l : Launcher σ) (r : Request) (note : String) (b : Bench σ) :
    (launchTool l r note).Ends b
      (fun _ b' => b' = (b.launch l r note).2 ∧ ¬ Succeeds l r note b) fun outcome b' =>
        b' = (b.launch l r note).2 ∧ (b.launch l r note).1 = .ok outcome := by
  have hrun := launchTool_run l r note b
  cases hr : (b.launch l r note).1 with
  | ok outcome =>
    rw [hr] at hrun
    exact ends_ok hrun ⟨rfl, rfl⟩
  | error e =>
    rw [hr] at hrun
    refine ends_error hrun ⟨rfl, ?_⟩
    rintro ⟨outcome, ho, -⟩
    rw [hr] at ho
    cases ho

/-! ## Compiling -/

/-- Compiling without a line in the journal. -/
def compileStaged (a : Area) (l : Launcher σ) (c : ToolCommand) (o : CompileOptions) :
    Action (Bench σ) Compiled := do
  let (request, modelPath) ← (a.prepareCompile c o).onBench
  let _ ← (readExisting modelPath).onBench
  let outcome ← launchTool l request "compile"
  if !outcome.success then throw (.compile (.of request outcome))
  let bytes ← a.collectArtifact.onBench
  return ⟨a.artifactPath, sha256Hex bytes, (Artifact.inspect bytes).toOption⟩

theorem compile_closes (a : Area) (j : Journal) (l : Launcher σ) (c : ToolCommand)
    (o : CompileOptions) (b : Bench σ) :
    j.ClosesOnBench "compile" ((a.compileStaged l c o).run b) ((a.compile j l c o).run b) := by
  refine j.loggedOnBench_run "" "compile" ?_ b
  refine .bind (.act _) fun prepared => .bind (.act _) fun model => ?_
  refine .note_bind _ (.bind (.act _) fun outcome => ?_)
  refine .ite (.bind (.throw _) fun _ => ?_) ?_
  · exact .bind (.act _) fun bytes => .note_bind _ (.pure _)
  · exact .bind (.act _) fun bytes => .note_bind _ (.pure _)

theorem compile_silent {j : Journal} (hj : j.path = none) (l : Launcher σ) (c : ToolCommand)
    (o : CompileOptions) : a.compile j l c o = a.compileStaged l c o :=
  ext_run fun b => (a.compile_closes j l c o b).silent hj

/-- How a compilation can end. -/
inductive Compiling (a : Area) (l : Launcher σ) (c : ToolCommand) (o : CompileOptions)
    (b : Bench σ) : Except Failure Compiled → Bench σ → Prop where
  /-- The preparation refused. -/
  | refused {e : Failure} : Compiling a l c o b (.error e) b
  /-- The model was not read. -/
  | unread {e : Failure} {request : Request} {path : String} {fs : Files} :
      (a.prepareCompile c o).run b.files = (.ok (request, path), fs) →
      Compiling a l c o b (.error e) { b with files := fs }
  /-- The compiler failed or left no artifact. -/
  | failed {e : Failure} {request : Request} {path : String} {fs : Files} :
      (a.prepareCompile c o).run b.files = (.ok (request, path), fs) →
      Compiling a l c o b (.error e) (Bench.launch l request "compile" { b with files := fs }).2
  /-- The compiler ended well and left an artifact. -/
  | made {request : Request} {path : String} {fs : Files} {bytes : Bytes} :
      (a.prepareCompile c o).run b.files = (.ok (request, path), fs) →
      Succeeds l request "compile" { b with files := fs } →
      (Bench.launch l request "compile" { b with files := fs }).2.files.read a.artifactPath =
        .ok bytes →
      Compiling a l c o b
        (.ok ⟨a.artifactPath, sha256Hex bytes, (Artifact.inspect bytes).toOption⟩)
        (Bench.launch l request "compile" { b with files := fs }).2

theorem collectArtifact_ends (a : Area) (fs : Files) :
    a.collectArtifact.Ends fs (fun _ fs' => fs' = fs) fun bytes fs' =>
      fs' = fs ∧ fs.read a.artifactPath = .ok bytes := by
  rw [collectArtifact]
  refine ends_get_bind ?_
  refine ends_guard (fun _ => rfl) fun _ => ?_
  exact readExisting_ends a.artifactPath fs

theorem compileStaged_ends (a : Area) (l : Launcher σ) (c : ToolCommand) (o : CompileOptions)
    (b : Bench σ) :
    a.Compiling l c o b ((a.compileStaged l c o).run b).1 ((a.compileStaged l c o).run b).2 := by
  refine Ends.run ?_
  rw [compileStaged]
  refine .bind (.onBench ⟨fun {e fs} hp => ?_, fun {prepared fs} hp => ?_⟩)
  · rw [(a.prepareCompile_ends c o b.files).of_error hp]
    exact .refused
  obtain ⟨request, path⟩ := prepared
  refine .bind (.onBench ((readExisting_ends path fs).mono ?_ ?_))
  · rintro e _ rfl
    exact .unread hp
  rintro model fs ⟨rfl, -⟩
  refine .bind ((launchTool_ends l request "compile" _).mono ?_ ?_)
  · rintro e _ ⟨rfl, -⟩
    exact .failed hp
  rintro outcome _ ⟨rfl, ho⟩
  refine ends_guard (fun _ => .failed hp) fun hgood => ?_
  refine .bind (.onBench ((a.collectArtifact_ends _).mono ?_ ?_))
  · rintro e _ rfl
    exact .failed hp
  · rintro bytes _ ⟨rfl, hb⟩
    exact ends_pure (.made hp ⟨outcome, ho, by simpa using hgood⟩ hb)

/-! ## Inferring -/

/-- Inferring without a line in the journal. -/
def inferStaged (a : Area) (l : Launcher σ) (c : ToolCommand) (case : String) (o : InferOptions) :
    Action (Bench σ) String := do
  let request ← (a.prepareInfer c case o).onBench
  let _ ← (readExisting (a.tensorPath case .input)).onBench
  let outcome ← launchTool l request case
  if !outcome.success then throw (.infer (.of request outcome))
  let _ ← (a.collectCandidate case).onBench
  return a.tensorPath case .candidate

theorem infer_closes (a : Area) (j : Journal) (l : Launcher σ) (c : ToolCommand) (case : String)
    (o : InferOptions) (b : Bench σ) :
    j.ClosesOnBench "infer" ((a.inferStaged l c case o).run b) ((a.infer j l c case o).run b) := by
  refine j.loggedOnBench_run case "infer" ?_ b
  refine .bind (.act _) fun request => .bind (.act _) fun input => ?_
  refine .note_bind _ (.bind (.act _) fun outcome => ?_)
  refine .ite (.bind (.throw _) fun _ => ?_) ?_
  · exact .bind (.act _) fun entry => .note_bind _ (.pure _)
  · exact .bind (.act _) fun entry => .note_bind _ (.pure _)

theorem infer_silent {j : Journal} (hj : j.path = none) (l : Launcher σ) (c : ToolCommand)
    (case : String) (o : InferOptions) : a.infer j l c case o = a.inferStaged l c case o :=
  ext_run fun b => (a.infer_closes j l c case o b).silent hj

/-- How an inference can end. -/
inductive Inferring (a : Area) (l : Launcher σ) (c : ToolCommand) (case : String)
    (o : InferOptions) (b : Bench σ) : Except Failure String → Bench σ → Prop where
  /-- The preparation refused. -/
  | refused {e : Failure} : Inferring a l c case o b (.error e) b
  /-- The input was not read. -/
  | unread {e : Failure} {request : Request} {fs : Files} :
      (a.prepareInfer c case o).run b.files = (.ok request, fs) →
      Inferring a l c case o b (.error e) { b with files := fs }
  /-- The runtime failed or left no candidate. -/
  | failed {e : Failure} {request : Request} {fs : Files} :
      (a.prepareInfer c case o).run b.files = (.ok request, fs) →
      ¬ (Succeeds l request case { b with files := fs } ∧
        (Bench.launch l request case { b with files := fs }).2.files.isFile
          (a.tensorPath case .candidate) = true) →
      Inferring a l c case o b (.error e) (Bench.launch l request case { b with files := fs }).2
  /-- The runtime ended well and left a candidate that was not recorded. -/
  | unrecorded {e : Failure} {request : Request} {fs : Files} :
      (a.prepareInfer c case o).run b.files = (.ok request, fs) →
      (a.recordExternal case .candidate .f32).run
        (Bench.launch l request case { b with files := fs }).2.files =
          (.error e, (Bench.launch l request case { b with files := fs }).2.files) →
      Inferring a l c case o b (.error e) (Bench.launch l request case { b with files := fs }).2
  /-- The runtime ended well and left a candidate that was recorded. -/
  | recorded {request : Request} {fs fs' : Files} {entry : TensorEntry} :
      (a.prepareInfer c case o).run b.files = (.ok request, fs) →
      Succeeds l request case { b with files := fs } →
      (a.recordExternal case .candidate .f32).run
        (Bench.launch l request case { b with files := fs }).2.files = (.ok entry, fs') →
      Inferring a l c case o b (.ok (a.tensorPath case .candidate))
        { (Bench.launch l request case { b with files := fs }).2 with files := fs' }

/-- A candidate is collected when it is there, as a tensor that a tool wrote. -/
theorem collectCandidate_ends (a : Area) (case : String) (fs : Files) :
    (a.collectCandidate case).Ends fs
      (fun e fs' => fs' = fs ∧ (fs.isFile (a.tensorPath case .candidate) = false ∨
        (a.recordExternal case .candidate .f32).run fs = (.error e, fs)))
      fun entry fs' => (a.recordExternal case .candidate .f32).run fs = (.ok entry, fs') := by
  rw [collectCandidate]
  refine ends_get_bind ?_
  refine ends_ite (fun hf => .bind (ends_throw ⟨rfl, Or.inl (by simpa using hf)⟩)) fun _ => ?_
  refine ⟨fun {e fs'} hr => ?_, fun {entry fs'} hr => hr⟩
  rcases a.recordExternal_ends case .candidate .f32 fs with ⟨e', he⟩ | ⟨_, _, _, -, -, -, -, -, ho⟩
  · rw [he] at hr
    cases hr
    exact ⟨rfl, Or.inr he⟩
  · rw [ho] at hr
    cases hr

theorem inferStaged_ends (a : Area) (l : Launcher σ) (c : ToolCommand) (case : String)
    (o : InferOptions) (b : Bench σ) :
    a.Inferring l c case o b ((a.inferStaged l c case o).run b).1
      ((a.inferStaged l c case o).run b).2 := by
  refine Ends.run ?_
  rw [inferStaged]
  refine .bind (.onBench ⟨fun {e fs} hp => ?_, fun {request fs} hp => ?_⟩)
  · rw [(a.prepareInfer_ends c case o b.files).of_error hp]
    exact .refused
  refine .bind (.onBench ((readExisting_ends (a.tensorPath case .input) fs).mono ?_ ?_))
  · rintro e _ rfl
    exact .unread hp
  rintro input fs ⟨rfl, -⟩
  refine .bind ((launchTool_ends l request case _).mono ?_ ?_)
  · rintro e _ ⟨rfl, hfail⟩
    exact .failed hp fun h => hfail h.1
  rintro outcome _ ⟨rfl, ho⟩
  refine ends_ite (fun hbad => .bind (ends_throw (.failed hp ?_))) fun hgood => ?_
  · rintro ⟨⟨outcome', ho', hgood'⟩, -⟩
    rw [ho] at ho'
    cases ho'
    rw [hgood'] at hbad
    cases hbad
  have hsuccess : Succeeds l request case { b with files := fs } :=
    ⟨outcome, ho, by simpa using hgood⟩
  refine .bind (.onBench ((a.collectCandidate_ends case _).mono ?_ ?_))
  · rintro e _ ⟨rfl, hmissing | hrecord⟩
    · refine .failed hp fun h => ?_
      rw [hmissing] at h
      cases h.2
    · exact .unrecorded hp hrecord
  · intro entry fs' hrecord
    exact ends_pure (.recorded hp hsuccess hrecord)

/-! ## Tools that keep to their output -/

end Area

/-- In the areas of a root, what is launched for a compilation changes nothing but the artifact,
and what is launched for an inference nothing but the candidate of its case. -/
structure Launcher.KeepsTo {σ : Type} (l : Launcher σ) (tools : Toolchain) (root : String) :
    Prop where
  /-- The compiler writes the artifact at most. -/
  compiler : ∀ {a : Area} {o : CompileOptions} {fs fs' : Files} {request : Request}
    {path : String} (s : σ), a.root = root →
    (a.prepareCompile tools.compiler o).run fs = (.ok (request, path), fs') →
      fs'.Touches a.artifactSpot (l.launch request fs' s).2.1
  /-- The runtime writes the candidate at most. -/
  runtime : ∀ {a : Area} {case : String} {o : InferOptions} {fs fs' : Files} {request : Request}
    (s : σ), a.root = root → (a.prepareInfer tools.runtime case o).run fs = (.ok request, fs') →
      fs'.Touches (a.candidateSpot case) (l.launch request fs' s).2.1

namespace Files

variable {fs fs' : Files} {spot : Location}

theorem Touches.refl (spot : Location) (fs : Files) : fs.Touches spot fs :=
  ⟨fun _ _ => rfl, id⟩

theorem Placed.touches {path : String} {bytes : Bytes} (h : fs.Placed path bytes fs') :
    fs.Touches (location path) fs' := by
  refine ⟨fun loc hl => ?_, fun hd => absurd hd h.free⟩
  rw [h.same, get?_set fs h.below, if_neg hl]

end Files

/-- An answer of a rehearsed tool: what it writes to its output, and how it ends. -/
structure Answer where
  /-- What is written. -/
  output : Option Bytes
  /-- The exit code. -/
  exitCode : Int

namespace Launcher

/-- The files after bytes, if there are any, were written to a path. -/
def deliver (path : String) (files : Files) : Option Bytes → Files
  | none => files
  | some bytes => (files.write path bytes).toOption.getD files

theorem deliver_touches (path : String) (files : Files) (output : Option Bytes) :
    files.Touches (location path) (deliver path files output) := by
  cases output with
  | none => exact Files.Touches.refl _ _
  | some bytes =>
    rw [deliver]
    cases hw : files.write path bytes with
    | error e => exact Files.Touches.refl _ _
    | ok fs' => exact (Files.write_placed hw).touches

/-- Tools that are rehearsed: each launch is answered by the next answer, whose bytes go where
the third argument says. -/
def rehearsed : Launcher (List Answer) where
  launch r files answers :=
    let answer := answers.head?.getD ⟨none, 0⟩
    (.ok ⟨some answer.exitCode, "", ""⟩,
      deliver (r.args.getD 2 "") files answer.output, answers.tail)

/-- Tools without arguments of their own that write where the third argument says, if they write
anything, keep to their output. -/
theorem keepsTo_of_delivers {σ : Type} {l : Launcher σ} {tools : Toolchain}
    (hc : tools.compiler.leading = []) (hr : tools.runtime.leading = []) (root : String)
    (h : ∀ r files t, ∃ output,
      (l.launch r files t).2.1 = deliver (r.args.getD 2 "") files output) :
    l.KeepsTo tools root where
  compiler {a o fs fs' request path} t _ hp := by
    have hspot : location (request.args.getD 2 "") = a.artifactSpot := by
      have hrequest := ((a.prepareCompile_ends _ o fs).of_ok hp).1
      dsimp only at hrequest
      rw [hrequest, ← a.location_artifactPath, ToolCommand.request, hc]
      rfl
    obtain ⟨output, hout⟩ := h request fs' t
    rw [← hspot, hout]
    exact deliver_touches _ _ _
  runtime {a case o fs fs' request} t _ hp := by
    have hspot : location (request.args.getD 2 "") = a.candidateSpot case := by
      rw [((a.prepareInfer_ends _ case o fs).of_ok hp).1, Area.candidateSpot,
        ToolCommand.request, hr]
      rfl
    obtain ⟨output, hout⟩ := h request fs' t
    rw [← hspot, hout]
    exact deliver_touches _ _ _

/-- Rehearsed tools without arguments of their own keep to their output. -/
theorem rehearsed_keepsTo {tools : Toolchain} (hc : tools.compiler.leading = [])
    (hr : tools.runtime.leading = []) (root : String) : rehearsed.KeepsTo tools root :=
  keepsTo_of_delivers hc hr root fun _ _ _ => ⟨_, rfl⟩

end Launcher

namespace Area

variable {σ : Type} {a : Area} {l : Launcher σ} {tools : Toolchain} {b b' : Bench σ}

/-- A compilation changes nothing but the artifact. -/
theorem Compiling.touches {o : CompileOptions} {r : Except Failure Compiled}
    (h : a.Compiling l tools.compiler o b r b') (hl : l.KeepsTo tools a.root) :
    b.files.Touches a.artifactSpot b'.files := by
  cases h with
  | refused => exact Files.Touches.refl _ _
  | unread hp => exact ((a.prepareCompile_ends _ o _).of_ok hp).2.2.2.1.touches
  | failed hp | made hp _ _ =>
    exact ((a.prepareCompile_ends _ o _).of_ok hp).2.2.2.1.touches.trans
      (hl.compiler b.tools rfl hp)

theorem Compiling.spares {o : CompileOptions} {r : Except Failure Compiled}
    (h : a.Compiling l tools.compiler o b r b') (hl : l.KeepsTo tools a.root) :
    b.files.Spares (· = a.artifactSpot) b'.files := (h.touches hl).spares

/-- The places that an inference may change. -/
def InferPlaces (a : Area) (case : String) (loc : Location) : Prop :=
  loc = a.candidateSpot case ∨ loc = a.manifestSpot

/-- An inference that failed changes at most the candidate. -/
theorem Inferring.spares_of_error {case : String} {o : InferOptions} {e : Failure}
    (h : a.Inferring l tools.runtime case o b (.error e) b') (hl : l.KeepsTo tools a.root) :
    b.files.Spares (· = a.candidateSpot case) b'.files := by
  cases h with
  | refused => exact Files.Spares.refl _ _
  | unread hp => exact ((a.prepareInfer_ends _ case o _).of_ok hp).2.2.2.1.1
  | failed hp _ | unrecorded hp _ =>
    exact ((a.prepareInfer_ends _ case o _).of_ok hp).2.2.2.1.1.trans
      (hl.runtime b.tools rfl hp).spares

/-- An inference changes at most the candidate and its record. -/
theorem Inferring.spares {case : String} {o : InferOptions} {r : Except Failure String}
    (h : a.Inferring l tools.runtime case o b r b') (hl : l.KeepsTo tools a.root) :
    b.files.Spares (a.InferPlaces case) b'.files := by
  cases h with
  | recorded hp _ hr =>
    have hlaunched := ((a.prepareInfer_ends _ case o _).of_ok hp).2.2.2.1.1.trans
      (hl.runtime b.tools rfl hp).spares
    refine (hlaunched.mono fun _ => Or.inl).trans ?_
    rcases a.recordExternal_ends case .candidate .f32 _ with
      ⟨_, he⟩ | ⟨_, _, _, -, -, -, hs, hm, ho⟩
    · rw [he] at hr
      cases hr
    · rw [ho] at hr
      cases hr
      exact (withManifest_spares hm hs _).mono fun _ => Or.inr
  | refused => exact Files.Spares.refl _ _
  | unread hp => exact ((a.prepareInfer_ends _ case o _).of_ok hp).2.2.2.1.1.mono fun _ => Or.inl
  | failed hp _ | unrecorded hp _ =>
    exact (((a.prepareInfer_ends _ case o _).of_ok hp).2.2.2.1.1.trans
      (hl.runtime b.tools rfl hp).spares).mono fun _ => Or.inl

end Area

end NetTrial
