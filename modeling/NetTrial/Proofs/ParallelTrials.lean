import NetTrial.Proofs.ConfinedTrials
import NetTrial.Proofs.FreshStarts
import NetTrial.Proofs.Parallels
/-!
# Two trials side by side

A trial that goes on from a cleared area ends alike on two benches whose files agree on what is
in sight, when the launchers answer alike and keep it so.
-/

namespace NetTrial

open NetTrial.Path Text Digest Number NetTrial.Action

/-- Two benches whose files agree on what is seen, whose launchers are in related states and
whose ledgers are the same. -/
structure Bench.Level {σ τ : Type} (seen : Location → Prop) (related : σ → τ → Prop)
    (b : Bench σ) (b' : Bench τ) : Prop where
  /-- The files agree. -/
  files : b.files.Agree seen b'.files
  /-- The launchers are in related states. -/
  tools : related b.tools b'.tools
  /-- The ledgers are the same. -/
  ledger : b.ledger = b'.ledger

/-- What two launches give is the same answer, files that agree and states that are related. -/
structure AnswersAlike {σ τ : Type} (seen : Location → Prop) (related : σ → τ → Prop)
    (x : LaunchResult × Files × σ) (y : LaunchResult × Files × τ) : Prop where
  /-- The answers are the same. -/
  result : x.1 = y.1
  /-- The files agree. -/
  files : x.2.1.Agree seen y.2.1
  /-- The launchers are in related states. -/
  tools : related x.2.2 y.2.2

/-- Two launchers answer alike what an area asks of them, and what is seen stays in sight. -/
structure Launcher.Abreast {σ τ : Type} (l : Launcher σ) (l' : Launcher τ) (tools : Toolchain)
    (a : Area) (seen : Location → Prop) (related : σ → τ → Prop) : Prop where
  /-- The compilers answer alike. -/
  compiler : ∀ {o : CompileOptions} {fs fs' left left' : Files} {request : Request}
    {path : String} {t : σ} {t' : τ},
    (a.prepareCompile tools.compiler o).run fs = (.ok (request, path), left) →
    (a.prepareCompile tools.compiler o).run fs' = (.ok (request, path), left') →
    left.Agree seen left' → related t t' →
      AnswersAlike seen related (l.launch request left t) (l'.launch request left' t')
  /-- The runtimes answer alike. -/
  runtime : ∀ {case : String} {o : InferOptions} {fs fs' left left' : Files} {request : Request}
    {t : σ} {t' : τ}, '/' ∉ case.toList →
    (a.prepareInfer tools.runtime case o).run fs = (.ok request, left) →
    (a.prepareInfer tools.runtime case o).run fs' = (.ok request, left') →
    left.Agree seen left' → related t t' →
      AnswersAlike seen related (l.launch request left t) (l'.launch request left' t')
  /-- The files that are named after a compilation are in sight. -/
  compilerTidy : ∀ {o : CompileOptions} {fs left : Files} {request : Request} {path : String}
    {t : σ}, (a.prepareCompile tools.compiler o).run fs = (.ok (request, path), left) →
      a.Tidy seen left → a.Tidy seen (l.launch request left t).2.1
  /-- The files that are named after an inference are in sight. -/
  runtimeTidy : ∀ {case : String} {o : InferOptions} {fs left : Files} {request : Request}
    {t : σ}, (a.prepareInfer tools.runtime case o).run fs = (.ok request, left) →
      a.Tidy seen left → a.Tidy seen (l.launch request left t).2.1

variable {σ τ α : Type} {seen : Location → Prop} {related : σ → τ → Prop} {b : Bench σ}
  {b' : Bench τ}

namespace Action

theorem Alongside.onBench {x y : Action Files α}
    (h : Alongside (Files.Agree seen) x b.files y b'.files) (hb : b.Level seen related b') :
    Alongside (Bench.Level seen related) x.onBench b y.onBench b' :=
  ⟨h.result, h.left, hb.tools, hb.ledger⟩

theorem AsksAlike.onBench {x y : Action Files α} (h : AsksAlike x b.files y b'.files) :
    AsksAlike (x.onBench : Action (Bench σ) α) b (y.onBench : Action (Bench τ) α) b' := by
  obtain ⟨hresult, hfirst, hsecond⟩ := h
  refine ⟨hresult, ?_, ?_⟩
  · rw [run_onBench, hfirst]
  · rw [run_onBench, hsecond]

/-- What an action on the files did on a bench it did on the files of the bench. -/
theorem run_of_onBench {x : Action Files α} {r : Except Failure α} {left : Bench σ}
    (h : (x.onBench : Action (Bench σ) α).run b = (r, left)) :
    x.run b.files = (r, left.files) ∧ left.tools = b.tools ∧ left.ledger = b.ledger := by
  rw [run_onBench] at h
  cases h
  exact ⟨rfl, rfl, rfl⟩

end Action

namespace Area

variable {a : Area} {l : Launcher σ} {l' : Launcher τ} {tools : Toolchain} {case : String}
  {fs fs' : Files}

theorem launchTool_alongside {request : Request} (hb : b.Level seen related b')
    (h : AnswersAlike seen related (l.launch request b.files b.tools)
      (l'.launch request b'.files b'.tools)) (note : String) :
    Alongside (Bench.Level seen related) (launchTool l request note) b
      (launchTool l' request note) b' := by
  obtain ⟨hresult, hfiles, htools⟩ := h
  have hsame : (b.launch l request note).1 = (b'.launch l' request note).1 := hresult
  refine ⟨?_, hfiles, htools, ?_⟩
  · rw [launchTool_run, launchTool_run, hsame]
  · rw [launchTool_run, launchTool_run, launch_ledger, launch_ledger, hb.ledger, hsame]

/-! ## What stays in sight -/

theorem Tidy.of_spares {spots : Location → Prop} (h : a.Tidy seen fs)
    (hs : fs.Spares spots fs') (hm : ¬ spots a.manifestSpot) : a.Tidy seen fs' := by
  have hold : ∀ m, a.Says fs' m → a.Says fs m := fun m hsays =>
    hsays.of_file fun bytes => (hs.file _ hm bytes).mp
  exact ⟨fun m hsays => h.tensors m (hold m hsays), fun m hsays => h.model m (hold m hsays)⟩

/-- A changed manifest names files in sight when the old one did and what is added is in
sight. -/
theorem Tidy.withManifest {m m' : Manifest} (h : a.Tidy seen fs) (hl : a.Lists fs m)
    (htensors : ∀ e ∈ m'.tensors, e ∈ m.tensors ∨ Files.Visible seen (join a.root e.file))
    (hmodel : ∀ e, m'.model = some e →
      m.model = some e ∨ Files.Visible seen (join a.root e.file)) :
    a.Tidy seen (a.withManifest fs m') := by
  constructor
  · intro found hsays e he
    rw [says_withManifest hsays] at he
    rcases htensors e he with he | hv
    · exact h.tensor hl he
    · exact hv
  · intro found hsays e he
    rw [says_withManifest hsays] at he
    rcases hmodel e he with he | hv
    · rcases hl.says_or_empty with hs | rfl
      · exact h.model m hs e he
      · cases he
    · exact hv

theorem Tidy.record {m : Manifest} {entry : TensorEntry} (h : a.Tidy seen fs)
    (hl : a.Lists fs m) (hv : Files.Visible seen (join a.root entry.file)) :
    a.Tidy seen (a.withManifest fs (m.record entry)) := by
  refine h.withManifest hl (fun e he => ?_) fun e he => Or.inl he
  rcases mem_record he with ⟨he, -⟩ | rfl
  · exact Or.inl he
  · exact Or.inr hv

theorem Entered.tidy {path : String} {bytes : Bytes} {change : Manifest → Manifest}
    {r : Except Failure Unit} (h : a.Entered path bytes change fs r fs') (ht : a.Tidy seen fs)
    (hpath : location path ≠ a.manifestSpot) (hchange : ∀ {fs₁ m}, a.Tidy seen fs₁ →
      a.Lists fs₁ m → a.Tidy seen (a.withManifest fs₁ (change m))) : a.Tidy seen fs' := by
  cases h with
  | refused hg =>
    have hs : fs.Spares (fun _ => False) fs' := hg.spares
    exact ht.of_spares hs id
  | unrecorded hst _ => exact ht.of_spares hst.spares hpath.symm
  | recorded hst hl => exact hchange (ht.of_spares hst.spares hpath.symm) hl

theorem stageTensor_tidy (hs : a.Sees seen) (ht : a.Tidy seen fs) (case : String) (role : Role)
    (t : Tensor) : a.Tidy seen ((a.stageTensor case role t).run fs).2 := by
  rcases a.stageTensor_ends case role t fs with ⟨e, he⟩ | ⟨bytes, r, fs₁, hc, -, hrun, hends⟩
  · rw [he]
    exact ht
  · rw [hrun]
    refine hends.tidy ht (a.location_tensorPath_ne_fixed manifest_fixed case role) ?_
    exact fun hti hl => hti.record hl (hs.tensor (checkCase_ok hc).1 role)

theorem stageModel_tidy (hs : a.Sees seen) (ht : a.Tidy seen fs) (source : ModelSource)
    (hn : IsName (modelFile source.format)) (hne : modelFile source.format ≠ manifestName) :
    a.Tidy seen ((a.stageModel source).run fs).2 := by
  rcases a.stageModel_ends source fs with ⟨e, he⟩ | ⟨bytes, r, fs₁, -, hrun, hends⟩
  · rw [he]
    exact ht
  · rw [hrun]
    refine hends.tidy ht ?_ ?_
    · rw [modelPath, location_join a.root hn, manifestSpot]
      exact entry_ne hne
    · intro fs₁ m hti hl
      refine hti.withManifest hl (fun e he => Or.inl he) fun e he => Or.inr ?_
      cases he
      exact hs.entry _ hn

/-! ## Compiling and inferring -/

theorem model_visible (ht : a.Tidy seen fs) {found : String × String}
    (h : a.model.run fs = (.ok found, fs')) : Files.Visible seen found.1 := by
  rcases a.lists_or_fails fs with ⟨m, hl⟩ | ⟨e, he⟩
  · rw [model_run hl] at h
    cases hm : m.model with
    | none =>
      rw [hm] at h
      cases h
    | some entry =>
      simp only [hm] at h
      by_cases hf : fs.isFile (join a.root entry.file) = true
      · rw [if_pos hf] at h
        cases h
        rcases hl.says_or_empty with hs | rfl
        · exact ht.model m hs entry hm
        · cases hm
      · rw [if_neg hf] at h
        cases h
  · rw [model, run_bind_of_error he] at h
    cases h

/-- The model that a compilation is asked for is in sight. -/
theorem prepareCompile_visible (ht : a.Tidy seen fs) (c : ToolCommand) (o : CompileOptions) :
    (a.prepareCompile c o).Ends fs (fun _ _ => True) fun r _ => Files.Visible seen r.2 := by
  rw [prepareCompile]
  refine .bind ⟨fun _ => trivial, fun {found fs₁} hmodel => ?_⟩
  have hv := model_visible ht hmodel
  refine .bind ⟨fun _ => trivial, fun {inputs fs₂} _ => ?_⟩
  refine ends_guard (fun _ => trivial) fun _ => ?_
  refine ends_guard (fun _ => trivial) fun _ => ?_
  refine ends_get_bind ?_
  refine .bind (ends_settle (fun _ _ => trivial) fun _ _ => ?_)
  refine .bind (ends_settle (fun _ _ => trivial) fun _ _ => ?_)
  exact .bind ⟨fun _ => trivial, fun {_ fs₃} _ => ends_pure hv⟩

section

variable (hb : b.Level seen related b') (hs : a.Sees seen) (ht : a.Tidy seen b.files)
  (hl : l.Abreast l' tools a seen related)

include hb hs ht hl

theorem compileStaged_alongside {o : CompileOptions}
    (hd : ∀ path, o.dataset = some path → Files.Visible seen path) :
    Alongside (Bench.Level seen related) (a.compileStaged l tools.compiler o) b
      (a.compileStaged l' tools.compiler o) b' := by
  rw [compileStaged, compileStaged]
  have hprepare := prepareCompile_alongside hb.files hs ht tools.compiler hd
  refine (hprepare.onBench hb).bind ?_
  rintro ⟨request, path⟩ b₁ b₁' hrun hrun' hb₁
  obtain ⟨hp, -, -⟩ := run_of_onBench hrun
  obtain ⟨hp', -, -⟩ := run_of_onBench hrun'
  have hv := (prepareCompile_visible ht tools.compiler o).of_ok hp
  refine (readExisting_alike hb₁.files hv).onBench.bind hb₁ fun _ _ => ?_
  refine (launchTool_alongside hb₁ (hl.compiler hp hp' hb₁.files hb₁.tools) _).bind ?_
  intro outcome b₂ b₂' _ _ hb₂
  refine .guard hb₂ fun _ => ?_
  refine (collectArtifact_alike hb₂.files hs).onBench.bind hb₂ fun _ _ => ?_
  exact (asksAlike_pure _ _ _).alongside hb₂

theorem inferStaged_alongside (hc : '/' ∉ case.toList) (o : InferOptions) :
    Alongside (Bench.Level seen related) (a.inferStaged l tools.runtime case o) b
      (a.inferStaged l' tools.runtime case o) b' := by
  rw [inferStaged, inferStaged]
  have hprepare := prepareInfer_alongside hb.files hs ht tools.runtime hc o
  refine (hprepare.onBench hb).bind ?_
  intro request b₁ b₁' hrun hrun' hb₁
  obtain ⟨hp, -, -⟩ := run_of_onBench hrun
  obtain ⟨hp', -, -⟩ := run_of_onBench hrun'
  refine (readExisting_alike hb₁.files (hs.tensor hc .input)).onBench.bind hb₁ fun _ _ => ?_
  refine (launchTool_alongside hb₁ (hl.runtime hc hp hp' hb₁.files hb₁.tools) _).bind ?_
  intro outcome b₂ b₂' _ _ hb₂
  refine .guard hb₂ fun _ => ?_
  refine ((collectCandidate_alongside hb₂.files hs hc).onBench hb₂).bind fun _ b₃ b₃' _ _ hb₃ => ?_
  exact (asksAlike_pure _ _ _).alongside hb₃

end

theorem compileStaged_tidy (ht : a.Tidy seen b.files) (hl : l.Abreast l' tools a seen related)
    {o : CompileOptions} {compiled : Compiled} {left : Bench σ}
    (h : (a.compileStaged l tools.compiler o).run b = (.ok compiled, left)) :
    a.Tidy seen left.files := by
  have hends := a.compileStaged_ends l tools.compiler o b
  rw [h] at hends
  cases hends with
  | made hp _ _ =>
    have hspares := ((a.prepareCompile_ends _ o _).of_ok hp).2.2.2.1.spares
    exact hl.compilerTidy hp (ht.of_spares hspares a.artifactSpot_ne_manifestSpot.symm)

theorem inferStaged_tidy (hs : a.Sees seen) (ht : a.Tidy seen b.files)
    (hl : l.Abreast l' tools a seen related) (hc : '/' ∉ case.toList) {o : InferOptions}
    {path : String} {left : Bench σ}
    (h : (a.inferStaged l tools.runtime case o).run b = (.ok path, left)) :
    a.Tidy seen left.files := by
  have hends := a.inferStaged_ends l tools.runtime case o b
  rw [h] at hends
  cases hends with
  | recorded hp _ hr =>
    have hspares := ((a.prepareInfer_ends _ case o _).of_ok hp).2.2.2.1.1
    have hlaunched := hl.runtimeTidy (t := b.tools) hp
      (ht.of_spares hspares (a.candidateSpot_ne_manifestSpot case).symm)
    rcases a.recordExternal_ends case .candidate .f32 _ with
      ⟨_, he⟩ | ⟨bytes, told, m, -, -, -, -, hlist, ho⟩
    · rw [he] at hr
      cases hr
    · rw [ho] at hr
      cases hr
      exact hlaunched.record hlist (hs.tensor hc .candidate)

theorem compareStaged_alike (h : fs.Agree seen fs') (hs : a.Sees seen) (ht : a.Tidy seen fs)
    (tolerance : Double) :
    AsksAlike (a.compareStaged case tolerance) fs (a.compareStaged case tolerance) fs' :=
  (loadPair_alike h hs ht case).asks fun _ _ => asksAlike_settle _ _ _

end Area

namespace Fixture

variable {f : Fixture} {s : Setup} {a : Area} {l : Launcher σ} {l' : Launcher τ}
  {fs fs' : Files}

theorem judge_alike (h : fs.Agree seen fs') (hs : a.Sees seen) (ht : a.Tidy seen fs)
    (kind : InferenceType) (compiled : Compiled) (comparison : Comparison) :
    AsksAlike (f.judge s a kind compiled comparison) fs
      (f.judge s a kind compiled comparison) fs' := by
  have hinexact : AsksAlike (f.isInexact a) fs (f.isInexact a) fs' := by
    refine (Area.loadPair_alike h hs ht f.case).asks fun pair _ => ?_
    cases compareTensors f.case pair.expected pair.candidate .zero with
    | ok _ => exact asksAlike_pure _ _ _
    | error cause =>
      cases cause <;> first | exact asksAlike_throw _ _ _ | exact asksAlike_pure _ _ _
  rw [judge]
  refine .ite (fun _ => hinexact.asks fun inexact _ => ?_) fun _ => asksAlike_pure _ _ _
  exact .ite (fun _ => asksAlike_pure _ _ _) fun _ => asksAlike_pure _ _ _

/-- The tools are launched and their outcome is judged alike. -/
theorem proceed_alongside (hb : b.Level seen related b') (hs : a.Sees seen)
    (ht : a.Tidy seen b.files) (hl : l.Abreast l' s.tools a seen related)
    (hc : '/' ∉ f.case.toList) {o : CompileOptions}
    (hd : ∀ path, o.dataset = some path → Files.Visible seen path) (o' : InferOptions) :
    Alongside (Bench.Level seen related) (f.proceed s l a o o') b
      (f.proceed s l' a o o') b' := by
  rw [proceed, proceed]
  refine (Area.compileStaged_alongside hb hs ht hl hd).bind fun compiled b₁ b₁' hr _ hb₁ => ?_
  have ht₁ := Area.compileStaged_tidy ht hl hr
  refine (Area.inferStaged_alongside hb₁ hs ht₁ hl hc o').bind fun _ b₂ b₂' hr _ hb₂ => ?_
  have ht₂ := Area.inferStaged_tidy hs ht₁ hl hc hr
  have hcompare : AsksAlike (a.compareStaged f.case f.tolerance) b₂.files
      (a.compareStaged f.case f.tolerance) b₂'.files :=
    Area.compareStaged_alike hb₂.files hs ht₂ f.tolerance
  refine hcompare.onBench.bind hb₂ fun comparison _ => ?_
  exact (judge_alike hb₂.files hs ht₂ _ _ _).onBench.alongside hb₂

theorem evaluated_alike (e : Evaluator) (source : ModelSource) (input : Tensor) :
    AsksAlike (evaluated e source input) fs (evaluated e source input) fs' :=
  (asksAlike_settle _ _ _).asks fun _ _ => asksAlike_settle _ _ _

/-- A cleared area is filled alike. -/
theorem fill_alongside (h : fs.Agree seen fs') (hs : a.Sees seen) :
    Alongside (Files.Agree seen) (f.fill a) fs (f.fill a) fs' := by
  rw [fill]
  have hv : Files.Visible seen (a.modelPath f.model.source) := hs.entry _ Area.isName_graph
  refine (Area.stageModel_alongside h hs f.model.source hv).bind
    fun _ fs₁ fs₁' _ _ h₁ => ?_
  refine (asksAlike_settle _ _ _).bind h₁ fun input _ => ?_
  rw [Evaluator.expect]
  refine Alongside.bind ?_ fun _ fs₂ fs₂' _ _ h₂ => (asksAlike_pure _ _ _).alongside h₂
  refine .guard h₁ fun _ => ?_
  refine (Area.stageTensor_alongside h₁ hs f.case .input input).bind fun _ fs₃ fs₃' _ _ h₃ => ?_
  refine (evaluated_alike _ _ _).bind h₃ fun expected _ => ?_
  refine (Area.stageTensor_alongside h₃ hs f.case .expected expected).bind
    fun _ fs₄ fs₄' _ _ h₄ => ?_
  exact (asksAlike_pure _ _ _).alongside h₄

/-- What is named in a filled area is in sight. -/
theorem fill_tidy (hs : a.Sees seen) (ht : a.Tidy seen fs) :
    a.Tidy seen ((f.fill a).run fs).2 := by
  have hne : Area.modelFile f.model.source.format ≠ Area.manifestName := by
    change Area.graphName ≠ _
    decide
  refine Ends.left ?_
  rw [fill]
  have hmodel := ends_of_left (Area.stageModel_tidy hs ht f.model.source Area.isName_graph hne)
  refine .bind (hmodel.mono (fun _ _ h => h) fun _ fs₁ ht₁ => ?_)
  refine .bind (ends_settle (fun _ _ => ht₁) fun input _ => ?_)
  rw [Evaluator.expect]
  refine .bind (ends_guard (fun _ => ht₁) fun _ => ?_)
  refine .bind ((ends_of_left (Area.stageTensor_tidy hs ht₁ f.case .input input)).mono
    (fun _ _ h => h) fun _ fs₂ ht₂ => ?_)
  refine .bind ((ends_unchanged (evaluated_files _ _ _ fs₂)).mono ?_ ?_)
  · rintro _ _ rfl
    exact ht₂
  rintro expected _ rfl
  refine .bind ((ends_of_left (Area.stageTensor_tidy hs ht₂ f.case .expected expected)).mono
    (fun _ _ h => h) fun _ fs₃ ht₃ => ?_)
  exact ends_pure (ends_pure ht₃)

/-- What is left of a trial of a cleared area ends alike. -/
theorem carryOn_alongside (hb : b.Level seen related b') (hs : a.Sees seen)
    (ht : a.Tidy seen b.files) (hstands : b.files.Stands a.root)
    (hl : l.Abreast l' s.tools a seen related) {o : CompileOptions}
    (hd : ∀ path, o.dataset = some path → Files.Visible seen path) (o' : InferOptions) :
    Alongside (Bench.Level seen related) (f.carryOn s l a o o') b
      (f.carryOn s l' a o o') b' := by
  rw [carryOn, carryOn]
  refine ((fill_alongside hb.files hs).onBench hb).bind fun _ b₁ b₁' hr _ hb₁ => ?_
  obtain ⟨hfill, -, -⟩ := run_of_onBench hr
  have hc := ((f.fill_ends hstands).of_ok hfill).2
  have ht₁ := fill_tidy (f := f) hs ht
  rw [hfill] at ht₁
  refine proceed_alongside hb₁ hs ht₁ hl hc (fun path hp => ?_) o'
  rw [calibrated] at hp
  by_cases hq : o.requiresCalibration ∧ o.dataset = none
  · rw [if_pos hq] at hp
    cases hp
    exact hs.tensor hc .input
  · rw [if_neg hq] at hp
    exact hd path hp

end Fixture

end NetTrial
