import NetTrial.Proofs.Comparisons
import NetTrial.Proofs.Invoking
import NetTrial.Proofs.Views
/-!
# Two runs side by side

An action that is run on two states may end alike in both. Staging and asking end alike where
the two states agree on what the paths of the area pass, and leave them agreeing; what the
manifest records is followed too, so the files that it names have to be in sight.
-/

namespace NetTrial

open NetTrial.Path Text Digest

namespace Action

variable {σ τ α β : Type} {R : σ → τ → Prop} {s : σ} {t : τ}

/-- Two runs end with the same value or failure and leave states that are related. -/
structure Alongside (R : σ → τ → Prop) (x : Action σ α) (s : σ) (y : Action τ α) (t : τ) :
    Prop where
  /-- The runs end alike. -/
  result : (x.run s).1 = (y.run t).1
  /-- The states that are left are related. -/
  left : R (x.run s).2 (y.run t).2

/-- Two runs end with the same value or failure and change nothing. -/
structure AsksAlike (x : Action σ α) (s : σ) (y : Action τ α) (t : τ) : Prop where
  /-- The runs end alike. -/
  result : (x.run s).1 = (y.run t).1
  /-- The first run changes nothing. -/
  first : (x.run s).2 = s
  /-- The second run changes nothing. -/
  second : (y.run t).2 = t

theorem asksAlike_of_run {x : Action σ α} {y : Action τ α} {r : Except Failure α}
    (hx : x.run s = (r, s)) (hy : y.run t = (r, t)) : AsksAlike x s y t := by
  constructor
  · rw [hx, hy]
  · rw [hx]
  · rw [hy]

theorem asksAlike_settle (r : Except Failure α) (s : σ) (t : τ) :
    AsksAlike (settle r) s (settle r) t := asksAlike_of_run (run_settle r s) (run_settle r t)

theorem asksAlike_throw (e : Failure) (s : σ) (t : τ) :
    AsksAlike (throw e : Action σ α) s (throw e) t :=
  asksAlike_of_run (run_throw e s) (run_throw e t)

theorem asksAlike_pure (a : α) (s : σ) (t : τ) :
    AsksAlike (pure a : Action σ α) s (pure a) t :=
  asksAlike_of_run (run_pure a s) (run_pure a t)

/-- The second run of a question ends as the first does. -/
theorem AsksAlike.run_eq {x : Action σ α} {y : Action τ α} (h : AsksAlike x s y t)
    {r : Except Failure α} (hx : x.run s = (r, s)) : y.run t = (r, t) :=
  Prod.ext (by rw [← h.result, hx]) h.second

theorem AsksAlike.alongside {x : Action σ α} {y : Action τ α} (h : AsksAlike x s y t)
    (hR : R s t) : Alongside R x s y t := by
  refine ⟨h.result, ?_⟩
  rw [h.first, h.second]
  exact hR

/-- What follows is run alongside on the related states and the value of the first parts. -/
theorem Alongside.bind {x : Action σ α} {y : Action τ α} {f : α → Action σ β}
    {g : α → Action τ β} (h : Alongside R x s y t) (hn : ∀ a s' t', x.run s = (.ok a, s') →
      y.run t = (.ok a, t') → R s' t' → Alongside R (f a) s' (g a) t') :
    Alongside R (x >>= f) s (y >>= g) t := by
  obtain ⟨hresult, hleft⟩ := h
  rcases hx : x.run s with ⟨r, s'⟩
  rcases hy : y.run t with ⟨r', t'⟩
  rw [hx, hy] at hresult hleft
  dsimp only at hresult hleft
  subst hresult
  cases r with
  | error e =>
    refine ⟨?_, ?_⟩
    · rw [run_bind_of_error hx, run_bind_of_error hy]
    · rw [run_bind_of_error hx, run_bind_of_error hy]
      exact hleft
  | ok a =>
    have hnext := hn a s' t' hx hy hleft
    refine ⟨?_, ?_⟩
    · rw [run_bind_of_ok hx, run_bind_of_ok hy]
      exact hnext.result
    · rw [run_bind_of_ok hx, run_bind_of_ok hy]
      exact hnext.left

/-- What follows a question is run alongside on the states that the question was put to. -/
theorem AsksAlike.bind {x : Action σ α} {y : Action τ α} {f : α → Action σ β}
    {g : α → Action τ β} (h : AsksAlike x s y t) (hR : R s t)
    (hn : ∀ a, x.run s = (.ok a, s) → Alongside R (f a) s (g a) t) :
    Alongside R (x >>= f) s (y >>= g) t := by
  refine (h.alongside hR).bind fun a s' t' hx hy _ => ?_
  have hs : s' = s := by rw [← h.first, hx]
  have ht : t' = t := by rw [← h.second, hy]
  subst hs ht
  exact hn a hx

/-- Questions one after the other are a question. -/
theorem AsksAlike.asks {x : Action σ α} {y : Action τ α} {f : α → Action σ β}
    {g : α → Action τ β} (h : AsksAlike x s y t)
    (hn : ∀ a, x.run s = (.ok a, s) → AsksAlike (f a) s (g a) t) :
    AsksAlike (x >>= f) s (y >>= g) t := by
  have hboth : Alongside (fun s' t' => s' = s ∧ t' = t) (x >>= f) s (y >>= g) t :=
    h.bind ⟨rfl, rfl⟩ fun a hx => (hn a hx).alongside ⟨rfl, rfl⟩
  exact ⟨hboth.result, hboth.left.1, hboth.left.2⟩

theorem alongside_get_bind {f : σ → Action σ α} {g : τ → Action τ α}
    (h : Alongside R (f s) s (g t) t) : Alongside R (get >>= f) s (get >>= g) t := by
  constructor
  · rw [run_get_bind, run_get_bind]
    exact h.result
  · rw [run_get_bind, run_get_bind]
    exact h.left

theorem asksAlike_get_bind {f : σ → Action σ α} {g : τ → Action τ α}
    (h : AsksAlike (f s) s (g t) t) : AsksAlike (get >>= f) s (get >>= g) t := by
  constructor
  · rw [run_get_bind, run_get_bind]
    exact h.result
  · rw [run_get_bind]
    exact h.first
  · rw [run_get_bind]
    exact h.second

theorem Alongside.ite {c : Prop} [Decidable c] {x x' : Action σ α} {y y' : Action τ α}
    (h : c → Alongside R x s y t) (h' : ¬ c → Alongside R x' s y' t) :
    Alongside R (if c then x else x') s (if c then y else y') t := by
  by_cases hc : c
  · rw [if_pos hc, if_pos hc]
    exact h hc
  · rw [if_neg hc, if_neg hc]
    exact h' hc

theorem AsksAlike.ite {c : Prop} [Decidable c] {x x' : Action σ α} {y y' : Action τ α}
    (h : c → AsksAlike x s y t) (h' : ¬ c → AsksAlike x' s y' t) :
    AsksAlike (if c then x else x') s (if c then y else y') t := by
  by_cases hc : c
  · rw [if_pos hc, if_pos hc]
    exact h hc
  · rw [if_neg hc, if_neg hc]
    exact h' hc

/-- A guard that fails in both runs leaves the states as they are related. -/
theorem Alongside.guard {c : Prop} [Decidable c] {e : Failure} {f : α → Action σ β}
    {g : α → Action τ β} {x : Action σ β} {y : Action τ β} (hR : R s t)
    (h : ¬ c → Alongside R x s y t) :
    Alongside R (if c then throw e >>= f else x) s (if c then throw e >>= g else y) t :=
  .ite (fun _ => (asksAlike_throw e s t).bind hR fun _ hx => by cases hx) h

/-- A guard is a question. -/
theorem AsksAlike.guard {c : Prop} [Decidable c] {e : Failure} {f : α → Action σ β}
    {g : α → Action τ β} {x : Action σ β} {y : Action τ β} (h : ¬ c → AsksAlike x s y t) :
    AsksAlike (if c then throw e >>= f else x) s (if c then throw e >>= g else y) t :=
  .ite (fun _ => (asksAlike_throw e s t).asks fun _ hx => by cases hx) h

/-! ## Files -/

variable {seen : Location → Prop} {fs fs' : Files} {path : String}

theorem alongside_edit {change : Files → Except OsError Files} (h : fs.Agree seen fs')
    (hc : Files.Alike seen (change fs) (change fs')) :
    Alongside (Files.Agree seen) (edit path change) fs (edit path change) fs' := by
  have hrun := run_edit path change fs
  have hrun' := run_edit path change fs'
  generalize change fs = made at hc hrun
  generalize change fs' = made' at hc hrun'
  cases hc with
  | refused cause =>
    constructor
    · rw [hrun, hrun']
    · rw [hrun, hrun']
      exact h
  | made hmade =>
    constructor
    · rw [hrun, hrun']
    · rw [hrun, hrun']
      exact hmade

theorem alongside_attempt {change : Files → Except OsError Unit × Files}
    (hr : (change fs).1 = (change fs').1) (h : (change fs).2.Agree seen (change fs').2) :
    Alongside (Files.Agree seen) (attempt path change) fs (attempt path change) fs' := by
  constructor
  · rw [run_attempt, run_attempt, hr]
  · rw [run_attempt, run_attempt]
    exact h

end Action

open NetTrial.Action

namespace Area

variable {a : Area} {seen : Location → Prop} {fs fs' : Files} {m : Manifest} {path case : String}
  {role : Role}

/-- All that the paths of an area pass is seen. -/
structure Sees (a : Area) (seen : Location → Prop) : Prop where
  /-- The path to the root is seen. -/
  root : Files.Visible seen a.root
  /-- The entries of the root are seen. -/
  entry : ∀ name, IsName name → Files.Visible seen (join a.root name)

theorem Sees.manifest (h : a.Sees seen) : Files.Visible seen a.manifestPath :=
  h.entry _ isName_manifest

theorem Sees.artifact (h : a.Sees seen) : Files.Visible seen a.artifactPath :=
  h.entry _ isName_artifact

theorem Sees.tensor (h : a.Sees seen) (hc : '/' ∉ case.toList) (role : Role) :
    Files.Visible seen (a.tensorPath case role) := h.entry _ (a.isName_tensorFile hc role)

/-- The files that the document of an area names are seen. -/
structure Tidy (a : Area) (seen : Location → Prop) (fs : Files) : Prop where
  /-- The files of tensors are seen. -/
  tensors : ∀ m, a.Says fs m → ∀ e ∈ m.tensors, Files.Visible seen (join a.root e.file)
  /-- The file of the model is seen. -/
  model : ∀ m, a.Says fs m → ∀ e, m.model = some e → Files.Visible seen (join a.root e.file)

theorem Tidy.tensor (h : a.Tidy seen fs) (hl : a.Lists fs m) {e : TensorEntry}
    (he : e ∈ m.tensors) : Files.Visible seen (join a.root e.file) := by
  rcases hl.says_or_empty with hs | rfl
  · exact h.tensors m hs e he
  · cases he

/-! ## Staging -/

section Staging

variable (h : fs.Agree seen fs') (hs : a.Sees seen)

include h

theorem readManifest_alike (hm : Files.Visible seen a.manifestPath) :
    AsksAlike a.readManifest fs a.readManifest fs' := by
  refine asksAlike_of_run (a.readManifest_run fs) ?_
  rw [readManifest_run, h.readChars hm]

theorem readExisting_alike (hv : Files.Visible seen path) :
    AsksAlike (readExisting path) fs (readExisting path) fs' := by
  refine asksAlike_of_run (readExisting_run path fs) ?_
  rw [readExisting_run, h.read hv]

theorem removeStale_alongside (hv : Files.Visible seen path) :
    Alongside (Files.Agree seen) (removeStale path) fs (removeStale path) fs' := by
  rw [removeStale]
  refine alongside_get_bind ?_
  have hremove := h.removeFile hv
  generalize fs.removeFile path = removed at hremove
  generalize fs'.removeFile path = removed' at hremove
  cases hremove with
  | made hmade => exact ⟨rfl, hmade⟩
  | refused cause =>
    cases cause with
    | notFound => exact (asksAlike_pure _ _ _).alongside h
    | _ => exact (asksAlike_throw _ _ _).alongside h

include hs

theorem writeFile_alongside (hv : Files.Visible seen path) (bytes : Bytes) :
    Alongside (Files.Agree seen) (a.writeFile path bytes) fs (a.writeFile path bytes) fs' := by
  rw [writeFile]
  obtain ⟨hresult, hmade⟩ := h.makeDirectories hs.root
  refine (alongside_attempt hresult hmade).bind fun _ grown grown' _ _ hgrown => ?_
  exact alongside_edit hgrown (hgrown.write hv bytes)

theorem updateManifest_alongside (change : Manifest → Manifest) :
    Alongside (Files.Agree seen) (a.updateManifest change) fs (a.updateManifest change) fs' := by
  rw [updateManifest]
  exact (readManifest_alike h hs.manifest).bind h fun m _ =>
    writeFile_alongside h hs hs.manifest (change m).bytes

theorem enter_alongside (hv : Files.Visible seen path) (bytes : Bytes)
    (change : Manifest → Manifest) :
    Alongside (Files.Agree seen) (a.enter path bytes change) fs
      (a.enter path bytes change) fs' := by
  rw [enter]
  exact (writeFile_alongside h hs hv bytes).bind fun _ left left' _ _ hleft =>
    updateManifest_alongside hleft hs change

theorem stageTensor_alongside (case : String) (role : Role) (t : Tensor) :
    Alongside (Files.Agree seen) (a.stageTensor case role t) fs
      (a.stageTensor case role t) fs' := by
  rw [stageTensor]
  refine (asksAlike_settle _ _ _).bind h fun _ hc => ?_
  have hname := (checkCase_ok (congrArg Prod.fst hc)).1
  refine (asksAlike_settle _ _ _).bind h fun bytes _ => ?_
  refine (enter_alongside h hs (hs.tensor hname role) bytes _).bind fun _ _ _ _ _ hleft => ?_
  exact (asksAlike_pure _ _ _).alongside hleft

theorem stageModel_alongside (source : ModelSource) (hv : Files.Visible seen (a.modelPath source)) :
    Alongside (Files.Agree seen) (a.stageModel source) fs (a.stageModel source) fs' := by
  rw [stageModel]
  refine (asksAlike_settle _ _ _).bind h fun bytes _ => ?_
  refine (enter_alongside h hs hv bytes _).bind fun _ _ _ _ _ hleft => ?_
  exact (asksAlike_pure _ _ _).alongside hleft

end Staging

/-! ## Asking -/

theorem Tidy.holds_agree (ht : a.Tidy seen fs) (h : fs.Agree seen fs') (hl : a.Lists fs m)
    {e : TensorEntry} (he : e ∈ m.tensors) : a.holds fs e = a.holds fs' e :=
  h.isFile (ht.tensor hl he)

section Asking

variable (h : fs.Agree seen fs') (hs : a.Sees seen) (ht : a.Tidy seen fs)

include h hs

theorem Lists.agree (hl : a.Lists fs m) : a.Lists fs' m :=
  (readManifest_alike h hs.manifest).run_eq hl

theorem tensorEntry_alike (case : String) (role : Role) :
    AsksAlike (a.tensorEntry case role) fs (a.tensorEntry case role) fs' := by
  rw [tensorEntry]
  refine (readManifest_alike h hs.manifest).asks fun m _ => ?_
  cases m.tensor? case role with
  | some entry => exact asksAlike_pure _ _ _
  | none => exact asksAlike_throw _ _ _

include ht

theorem loadTensor_alike (case : String) (role : Role) :
    AsksAlike (a.loadTensor case role) fs (a.loadTensor case role) fs' := by
  rw [loadTensor]
  refine (tensorEntry_alike h hs case role).asks fun e he => ?_
  obtain ⟨-, m, hl, hfind⟩ := (a.tensorEntry_ends case role fs).of_ok he
  refine (readExisting_alike h (ht.tensor hl (List.mem_of_find?_eq_some hfind))).asks fun _ _ => ?_
  exact asksAlike_settle _ _ _

theorem loadPair_alike (case : String) :
    AsksAlike (a.loadPair case) fs (a.loadPair case) fs' := by
  rw [loadPair]
  refine (loadTensor_alike h hs ht case .expected).asks fun expected _ => ?_
  refine (tensorEntry_alike h hs case .candidate).asks fun entry _ => ?_
  refine (loadTensor_alike h hs ht case .candidate).asks fun candidate _ => ?_
  cases entry.shape with
  | some shape => exact asksAlike_pure _ _ _
  | none => exact (asksAlike_settle _ _ _).asks fun _ _ => asksAlike_pure _ _ _

theorem hasTensor_alike (case : String) (role : Role) :
    AsksAlike (a.hasTensor case role) fs (a.hasTensor case role) fs' := by
  rw [hasTensor]
  refine (readManifest_alike h hs.manifest).asks fun m hm => asksAlike_get_bind ?_
  have hsame : (m.tensor? case role).any (a.holds fs) =
      (m.tensor? case role).any (a.holds fs') := by
    cases he : m.tensor? case role with
    | none => rfl
    | some e => exact ht.holds_agree h hm (List.mem_of_find?_eq_some he)
  rw [hsame]
  exact asksAlike_pure _ _ _

theorem stagedInputs_alike : AsksAlike a.stagedInputs fs a.stagedInputs fs' := by
  rw [stagedInputs]
  refine (readManifest_alike h hs.manifest).asks fun m hm => asksAlike_get_bind ?_
  have hsame : (m.tensors.filter fun e => e.role == .input && a.holds fs e) =
      m.tensors.filter fun e => e.role == .input && a.holds fs' e :=
    List.filter_congr fun e he => by rw [ht.holds_agree h hm he]
  rw [hsame]
  exact asksAlike_pure _ _ _

theorem model_alike : AsksAlike a.model fs a.model fs' := by
  rw [model]
  refine (readManifest_alike h hs.manifest).asks fun m hm => ?_
  cases hmodel : m.model with
  | none => exact asksAlike_throw _ _ _
  | some entry =>
    have hv : Files.Visible seen (join a.root entry.file) := by
      have hl : a.Lists fs m := hm
      rcases hl.says_or_empty with hsays | rfl
      · exact ht.model m hsays entry hmodel
      · cases hmodel
    simp only
    refine asksAlike_get_bind ?_
    rw [h.isFile hv]
    exact .ite (fun _ => asksAlike_pure _ _ _) fun _ => asksAlike_throw _ _ _

end Asking

/-! ## Preparing and collecting -/

section Invoking

variable (h : fs.Agree seen fs') (hs : a.Sees seen) (ht : a.Tidy seen fs)

include h hs

theorem prepareCompile_alongside (ht : a.Tidy seen fs) (c : ToolCommand) {o : CompileOptions}
    (hd : ∀ path, o.dataset = some path → Files.Visible seen path) :
    Alongside (Files.Agree seen) (a.prepareCompile c o) fs (a.prepareCompile c o) fs' := by
  have hcheck : ∀ request, o.checkCalibration fs request = o.checkCalibration fs' request := by
    intro request
    rw [CompileOptions.checkCalibration, CompileOptions.checkCalibration]
    cases hpath : o.dataset with
    | none => rfl
    | some path => simp only [h.pathExists (hd path hpath)]
  rw [prepareCompile]
  refine (model_alike h hs ht).bind h fun found _ => ?_
  refine (stagedInputs_alike h hs ht).bind h fun inputs _ => ?_
  refine .guard h fun _ => ?_
  refine .guard h fun _ => ?_
  refine alongside_get_bind ?_
  simp only [hcheck]
  refine (asksAlike_settle _ _ _).bind h fun _ _ => ?_
  refine (asksAlike_settle _ _ _).bind h fun _ _ => ?_
  refine (removeStale_alongside h hs.artifact).bind fun _ _ _ _ _ hleft => ?_
  exact (asksAlike_pure _ _ _).alongside hleft

theorem prepareInfer_alongside (ht : a.Tidy seen fs) (c : ToolCommand) (hc : '/' ∉ case.toList)
    (o : InferOptions) :
    Alongside (Files.Agree seen) (a.prepareInfer c case o) fs (a.prepareInfer c case o) fs' := by
  rw [prepareInfer]
  refine alongside_get_bind ?_
  rw [h.isFile hs.artifact]
  refine .guard h fun _ => ?_
  refine (hasTensor_alike h hs ht case .input).bind h fun there _ => ?_
  refine .guard h fun _ => ?_
  refine .guard h fun _ => ?_
  refine (removeStale_alongside h (hs.tensor hc .candidate)).bind fun _ _ _ _ _ hleft => ?_
  exact (asksAlike_pure _ _ _).alongside hleft

theorem collectArtifact_alike : AsksAlike a.collectArtifact fs a.collectArtifact fs' := by
  rw [collectArtifact]
  refine asksAlike_get_bind ?_
  rw [h.isFile hs.artifact]
  refine .guard fun _ => ?_
  exact readExisting_alike h hs.artifact

theorem recordExternal_alongside (case : String) (role : Role) (kind : ElementType) :
    Alongside (Files.Agree seen) (a.recordExternal case role kind) fs
      (a.recordExternal case role kind) fs' := by
  rw [recordExternal]
  refine (asksAlike_settle _ _ _).bind h fun _ hc => ?_
  have hname := (checkCase_ok (congrArg Prod.fst hc)).1
  refine (readExisting_alike h (hs.tensor hname role)).bind h fun bytes _ => ?_
  refine (asksAlike_settle _ _ _).bind h fun told _ => ?_
  refine (updateManifest_alongside h hs _).bind fun _ _ _ _ _ hleft => ?_
  exact (asksAlike_pure _ _ _).alongside hleft

theorem collectCandidate_alongside (hc : '/' ∉ case.toList) :
    Alongside (Files.Agree seen) (a.collectCandidate case) fs (a.collectCandidate case) fs' := by
  rw [collectCandidate]
  refine alongside_get_bind ?_
  rw [h.isFile (hs.tensor hc .candidate)]
  refine .guard h fun _ => ?_
  exact recordExternal_alongside h hs case .candidate .f32

end Invoking

end Area

end NetTrial
