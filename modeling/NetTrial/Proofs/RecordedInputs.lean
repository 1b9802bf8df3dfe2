import NetTrial.Proofs.Artifacts
import NetTrial.Proofs.Candidates
import NetTrial.Proofs.Readiness
import NetTrial.Proofs.TruthfulManifests
/-!
# The input that the runtime reads

An inference asks the manifest whether the input of its case is staged, but it gives the runtime
the path that the format of its own area makes up for it. The recorded file is there and has the
recorded digest, whatever was staged in whatever format; the runtime reads this file when the last
turn that recorded an input for the case had the format of the inferring turn. Otherwise it reads a
file that was left behind by an earlier one.
-/

namespace NetTrial

open NetTrial.Path Text NetTrial.Action

namespace Area

variable {σ : Type} {a : Area} {fs fs' : Files} {m : Manifest} {case : String}

/-! ## Recorded inputs -/

/-- Entries are named after case, role and format, and the recorded inputs are there. -/
structure Supplies (a : Area) (fs : Files) (m : Manifest) : Prop where
  /-- Files are named after case, role and format. -/
  named : ∀ e ∈ m.tensors, e.Named
  /-- The files of inputs are the recorded ones. -/
  inputs : ∀ e ∈ m.tensors, e.role = .input → a.Backs fs e.file e.sha256

/-- Where the records of inputs may lead. -/
def InputSpot (a : Area) (loc : Location) : Prop :=
  ∃ e : TensorEntry, e.Named ∧ e.role = .input ∧ loc = location (join a.root e.file)

theorem InputSpot.recorded {loc : Location} (h : a.InputSpot loc) : a.Recorded loc := by
  obtain ⟨e, he, -, hloc⟩ := h
  exact Or.inl ⟨e, he, hloc⟩

/-- An input is where its case and format put it. -/
theorem InputSpot.exists_file {loc : Location} (h : a.InputSpot loc) :
    ∃ (b : Area) (c : String),
      '/' ∉ c.toList ∧ loc = location a.root ++ [b.tensorFile c .input] := by
  obtain ⟨e, he, hrole, hloc⟩ := h
  obtain ⟨b, -, hfile⟩ := he.tensorFile a.root
  rw [location_join a.root he.isName, hfile, hrole] at hloc
  exact ⟨b, e.case, (checkCase_ok he.case_ok).1, hloc⟩

theorem InputSpot.ne_artifactSpot {loc : Location} (h : a.InputSpot loc) :
    loc ≠ a.artifactSpot := by
  obtain ⟨b, c, -, hloc⟩ := h.exists_file
  rw [hloc]
  exact entry_ne (b.tensorFile_ne_fixed artifact_fixed c .input)

theorem InputSpot.ne_candidateSpot {loc : Location} (h : a.InputSpot loc)
    (hcase : '/' ∉ case.toList) : loc ≠ a.candidateSpot case := by
  obtain ⟨b, c, -, hloc⟩ := h.exists_file
  rw [hloc, candidateSpot_eq hcase]
  refine entry_ne fun hfile => ?_
  have hrole := (tensorFile_inj hfile).2.1
  cases hrole

/-- Staging sustains the recorded inputs. -/
theorem supplies_sustained (a : Area) : a.Sustained a.Supplies a.InputSpot where
  empty _ := ⟨nofun, nofun⟩
  manifest h := a.not_recorded_manifest h.recorded
  spares h hs hfree := by
    refine ⟨h.named, fun e he hrole => (h.inputs e he hrole).of_spares hs ?_⟩
    exact hfree _ ⟨e, h.named e he, hrole, rfl⟩
  record h he hs hback := by
    refine ⟨fun old hold => ?_, fun old hold hrole => ?_⟩
    · cases mem_record hold with
      | inl hother => exact h.named old hother.1
      | inr hsame => exact hsame ▸ he
    · cases mem_record hold with
      | inl hother =>
        refine (h.inputs old hother.1 hrole).of_spares hs fun hloc => ?_
        exact hother.2 (eq_of_location (h.named old hother.1) he hloc)
      | inr hsame => exact hsame ▸ hback
  withModel h hmodel hs _ := by
    refine ⟨h.named, fun e he hrole => (h.inputs e he hrole).of_spares hs ?_⟩
    exact (location_model_ne hmodel (h.named e he)).symm

variable {said : Files → Manifest → Prop} {rests : Location → Prop}

theorem Upholds.imp {said' : Files → Manifest → Prop} (h : a.Upholds said fs)
    (hsaid : ∀ fs m, said fs m → said' fs m) : a.Upholds said' fs := by
  cases h with
  | inl hnone => exact Or.inl hnone
  | inr hlisted =>
    obtain ⟨hs, m, hl, hm⟩ := hlisted
    exact Or.inr ⟨hs, m, hl, hsaid fs m hm⟩

/-- What is recorded of inputs is so in a root, whatever format the area has. -/
theorem Supplies.of_root {root : String} {format format' : DatasetFormat}
    (h : (⟨root, format⟩ : Area).Supplies fs m) : (⟨root, format'⟩ : Area).Supplies fs m :=
  ⟨h.named, h.inputs⟩

/-! ## Tools that keep to their output -/

/-- What is upheld stays so while one place is touched that it does not rest on. -/
theorem Upholds.of_touches {spot : Location} (h : a.Upholds said fs)
    (hsaid : a.Sustained said rests) (ht : fs.Touches spot fs') (hspot : spot ≠ a.manifestSpot)
    (hfree : ¬ rests spot) : a.Upholds said fs' := by
  refine h.of_spares hsaid ht.spares (fun loc hloc he => ?_) (ht.same _ hspot.symm)
  exact hfree (he ▸ hloc)

section Launching

variable {l : Launcher σ} {tools : Toolchain} {b b' : Bench σ}
  (h : a.Upholds a.Supplies b.files)

include h

/-- A compilation upholds the recorded inputs, however it ends. -/
theorem Upholds.compiling (hl : l.KeepsTo tools a.root) {o : CompileOptions}
    {r : Except Failure Compiled} (hends : a.Compiling l tools.compiler o b r b') :
    a.Upholds a.Supplies b'.files :=
  h.of_touches a.supplies_sustained (hends.touches hl) a.artifactSpot_ne_manifestSpot
    fun hspot => hspot.ne_artifactSpot rfl

/-- An inference that is prepared is for a case that is recorded, and so for one that may be
staged; only its candidate is gone. -/
theorem Upholds.prepared {c : ToolCommand} {o : InferOptions} {request : Request}
    (hp : (a.prepareInfer c case o).run b.files = (.ok request, fs)) :
    '/' ∉ case.toList ∧ b.files.Frees (a.candidateSpot case) fs := by
  obtain ⟨m, e, hl, he, -⟩ := (a.prepareInfer_grants c case o b.files).of_ok hp
  have hsupplies : a.Supplies b.files m := h.of_lists a.supplies_sustained.empty hl
  have hcase : '/' ∉ e.case.toList :=
    (checkCase_ok (hsupplies.named e (List.mem_of_find?_eq_some he)).case_ok).1
  rw [(isFor_iff.mp (List.find?_some he)).1] at hcase
  exact ⟨hcase, ((a.prepareInfer_ends c case o b.files).of_ok hp).2.2.2.2 hcase⟩

/-- The recorded inputs are there when the runtime is launched. -/
theorem Upholds.ready {c : ToolCommand} {o : InferOptions} {request : Request}
    (hp : (a.prepareInfer c case o).run b.files = (.ok request, fs)) :
    a.Upholds a.Supplies fs := by
  obtain ⟨hcase, hfrees⟩ := h.prepared hp
  exact h.of_touches a.supplies_sustained hfrees.touches (a.candidateSpot_ne_manifestSpot case)
    fun hspot => hspot.ne_candidateSpot hcase rfl

/-- An inference that is prepared leaves a recorded input of its case in place. -/
theorem Upholds.input {c : ToolCommand} {o : InferOptions} {request : Request}
    (hp : (a.prepareInfer c case o).run b.files = (.ok request, fs)) :
    ∃ m e, a.Lists b.files m ∧ a.Lists fs m ∧ m.tensor? case .input = some e ∧ e.Named ∧
      a.Backs fs e.file e.sha256 := by
  obtain ⟨-, hfrees⟩ := h.prepared hp
  obtain ⟨m, e, hlisted, he, -⟩ := (a.prepareInfer_grants c case o b.files).of_ok hp
  have hmem : e ∈ m.tensors := List.mem_of_find?_eq_some he
  have hrole : e.role = .input := (isFor_iff.mp (List.find?_some he)).2
  have hlists : a.Lists fs m :=
    hlisted.of_spares he hfrees.spares (a.candidateSpot_ne_manifestSpot case).symm
  have hsupplies : a.Supplies fs m := (h.ready hp).of_lists a.supplies_sustained.empty hlists
  exact ⟨m, e, hlisted, hlists, he, hsupplies.named e hmem, hsupplies.inputs e hmem hrole⟩

/-- An inference upholds the recorded inputs, however it ends. -/
theorem Upholds.inferring (hl : l.KeepsTo tools a.root) {o : InferOptions}
    {r : Except Failure String} (hends : a.Inferring l tools.runtime case o b r b') :
    a.Upholds a.Supplies b'.files := by
  have hlaunched : ∀ {request fs}, (a.prepareInfer tools.runtime case o).run b.files =
      (.ok request, fs) →
        a.Upholds a.Supplies (Bench.launch l request case { b with files := fs }).2.files := by
    intro request fs hp
    refine (h.ready hp).of_touches a.supplies_sustained (hl.runtime b.tools rfl hp)
      (a.candidateSpot_ne_manifestSpot case) fun hspot => ?_
    exact hspot.ne_candidateSpot (h.prepared hp).1 rfl
  cases hends with
  | refused => exact h
  | unread hp => exact h.ready hp
  | failed hp _ | unrecorded hp _ => exact hlaunched hp
  | recorded hp _ hr =>
    have hrecord := (hlaunched hp).recordExternal a.supplies_sustained case .candidate .f32
    rw [hr] at hrecord
    exact hrecord

end Launching

/-! ## What is recorded -/

/-- A tensor is recorded by the entry that was recorded last. -/
theorem Records.of_record {role : Role} {e e' : TensorEntry} (hcase : e'.case = case)
    (hrole : e'.role = role) (h : a.Records (a.withManifest fs (m.record e')) case role e) :
    e = e' := by
  obtain ⟨found, hsays, hfound⟩ := h
  rw [says_withManifest hsays, ← hcase, ← hrole, m.tensor?_record] at hfound
  exact (Option.some.inj hfound).symm

/-- The file that an inference is asked to read is the recorded one, with the recorded digest. -/
structure Feeds (a : Area) (fs : Files) (case : String) (e : TensorEntry) : Prop where
  /-- The path leads to the recorded file. -/
  path : a.tensorPath case .input = join a.root e.file
  /-- The file has the recorded digest. -/
  digest : ∃ bytes, fs.read (a.tensorPath case .input) = .ok bytes ∧
    e.sha256 = Digest.sha256Hex bytes

/-- Entries of a root are told apart by their paths. -/
theorem join_inj {name name' : String} (hn : IsName name) (hn' : IsName name')
    (h : join a.root name = join a.root name') : name = name' := by
  have hloc := congrArg location h
  rw [location_join a.root hn, location_join a.root hn'] at hloc
  exact entry_inj hloc

/-- An inference is fed the recorded input when the area gives the file its name. -/
theorem feeds_iff {e : TensorEntry} (hcase : '/' ∉ case.toList) (he : e.Named)
    (hback : a.Backs fs e.file e.sha256) :
    a.Feeds fs case e ↔ e.file = a.tensorFile case .input := by
  constructor
  · intro hfeeds
    exact (join_inj (a.isName_tensorFile hcase .input) he.isName hfeeds.path).symm
  · intro hfile
    have hpath : a.tensorPath case .input = join a.root e.file := by rw [hfile, tensorPath]
    obtain ⟨bytes, hread, hdigest⟩ := hback
    exact ⟨hpath, bytes, by rw [hpath, hread], hdigest⟩

end Area

/-! ## Sessions -/

namespace Site

variable {σ : Type} {w : Site σ} {t first : Turn} {b : Bench σ} {case : String} {role : Role}
  {e : TensorEntry} {turns : List Turn}

/-- A turn as one expects it: the extension of a model has no dot, and a machine can count the
elements of a tensor along each axis. -/
structure Ordinary (t : Turn) : Prop where
  /-- A model is named with one dot. -/
  dotless : ∀ source, t.task = .saveModel source → '.' ∉ source.format.extension.toList
  /-- The dimensions of what is staged are words. -/
  fits : Turn.Fits t

/-- Neither the journal nor the model of a turn is where the manifest is. -/
theorem Ordinary.avoids (h : Ordinary t) (hj : t.journal.Aside (w.area t)) :
    w.Avoids (w.area t).manifestSpot t where
  journal := by
    rintro ⟨path, hpath, hloc⟩
    exact hj.manifest ⟨path, hpath, hloc ▸ onPath_location path⟩
  model source htask := Area.location_model_ne_manifest (h.dotless source htask)

/-! ### The recorded inputs -/

/-- Every turn upholds the recorded inputs, however it ends. -/
theorem step_supplies (hl : w.launcher.KeepsTo w.tools w.root) (ht : Ordinary t)
    (hj : t.journal.Aside (w.area t)) (hup : ¬ OnPath w.root (w.area t).manifestSpot)
    (h : (w.area t).Upholds (w.area t).Supplies b.files) :
    (w.area t).Upholds (w.area t).Supplies (w.step b t).files := by
  have hsaid := (w.area t).supplies_sustained
  obtain ⟨bare, htaken, hlogged⟩ := w.step_taken t b
  refine Area.Upholds.logged ?_ hsaid (fun _ => Area.InputSpot.recorded) hlogged hj
  cases htaken with
  | clear _ => exact h.reset hup
  | saveModel source htask => exact h.stageModel hsaid hup (ht.dotless source htask)
  | saveTensor case role tensor htask =>
    exact h.stageTensor hsaid hup case role (ht.fits case role tensor htask)
  | recordExternal case role kind _ => exact h.recordExternal hsaid case role kind
  | compile o _ =>
    exact h.compiling hl ((w.area t).compileStaged_ends w.launcher w.tools.compiler o b)
  | infer case o _ =>
    exact h.inferring hl ((w.area t).inferStaged_ends w.launcher w.tools.runtime case o b)

/-- From a first clearing on the recorded inputs are there. -/
theorem run_supplies (hl : w.launcher.KeepsTo w.tools w.root) (hfirst : first.task = .clear)
    (hup : ¬ OnPath w.root (w.area first).manifestSpot)
    (hstart : (w.area first).Leads b.files ∨ b.files.get? (w.area first).manifestSpot = none)
    (hturns : ∀ t ∈ turns, Ordinary t)
    (hj : ∀ t ∈ first :: turns, t.journal.Aside (w.area t)) (format : DatasetFormat) :
    (⟨w.root, format⟩ : Area).Upholds (⟨w.root, format⟩ : Area).Supplies
      (w.after b (first :: turns)).files := by
  have hcleared : (⟨w.root, format⟩ : Area).Upholds (⟨w.root, format⟩ : Area).Supplies
      (w.step b first).files :=
    Or.inl (step_clear_unlisted hfirst hup hstart (hj first List.mem_cons_self))
  rw [after_cons]
  refine after_upholds turns (fun t ht b' h => ?_) hcleared
  have hthere : (w.area t).Upholds (w.area t).Supplies b'.files :=
    h.of_root.imp fun _ _ => Area.Supplies.of_root
  have hstep := step_supplies hl (hturns t ht) (hj t (List.mem_cons_of_mem first ht)) hup hthere
  exact hstep.imp fun _ _ => Area.Supplies.of_root

/-! ### The turn that recorded an input -/

/-- What a turn records of a tensor that no tool wrote is named after its format. -/
theorem enters_names (hrole : role ≠ .candidate) (hj : ¬ t.journal.IsAt (w.area t).manifestSpot)
    (h : w.Enters case role t b) (hr : (w.area t).Records (w.step b t).files case role e) :
    e.file = (w.area t).tensorFile case role := by
  obtain ⟨bare, htaken, hlogged⟩ := w.step_taken t b
  replace hr := hr.of_spares hlogged.spares hj
  rw [Enters] at h
  cases htaken with
  | clear ht | saveModel _ ht | compile _ ht =>
    rw [ht] at h
    exact h.elim
  | infer c o ht =>
    rw [ht] at h
    exact absurd h.2.1 hrole
  | saveTensor c r tensor ht =>
    rw [ht] at h
    obtain ⟨rfl, rfl, path, hok⟩ := h
    rcases (w.area t).stageTensor_ends c r tensor b.files with
      ⟨e', he⟩ | ⟨bytes, result, fs', -, -, hrun, hends⟩
    · rw [he] at hok
      cases hok
    · rw [hrun] at hok hr
      cases hends with
      | refused _ | unrecorded _ _ => cases hok
      | recorded _ _ =>
        rw [Area.Records.of_record rfl rfl hr]
        rfl
  | recordExternal c r kind ht =>
    rw [ht] at h
    obtain ⟨rfl, rfl, entry, hok⟩ := h
    rcases (w.area t).recordExternal_ends c r kind b.files with
      ⟨e', he⟩ | ⟨bytes, told, m, -, -, -, -, -, hrun⟩
    · rw [he] at hok
      cases hok
    · rw [hrun] at hr
      rw [Area.Records.of_record rfl rfl hr]
      rfl

/-- What is recorded of a tensor after a run was recorded by the last turn that recorded it, or
before the run when no turn did. -/
theorem run_entered {a : Area} (hl : w.launcher.KeepsTo w.tools w.root) (ha : a.root = w.root)
    (havoid : ∀ t ∈ turns, w.Avoids a.manifestSpot t) (hfits : ∀ t ∈ turns, Turn.Fits t)
    (h : a.Records (w.after b turns).files case role e) :
    a.Records b.files case role e ∨ ∃ earlier c later,
      w.Last (w.Enters case role) b turns earlier c later ∧
      a.Records (w.after b (earlier ++ [c])).files case role e := by
  suffices hnever : (a.Records b.files case role e ∧ w.Never (w.Enters case role) b turns) ∨
      ∃ earlier c later, w.Last (w.Enters case role) b turns earlier c later ∧
        a.Records (w.after b (earlier ++ [c])).files case role e from hnever.imp_left And.left
  induction turns generalizing b with
  | nil => exact Or.inl ⟨h, w.never_nil _ b⟩
  | cons t rest ih =>
    have hrest := ih (fun t ht => havoid t (List.mem_cons_of_mem _ ht))
      (fun t ht => hfits t (List.mem_cons_of_mem _ ht)) h
    rcases hrest with ⟨hthen, hnever⟩ | ⟨earlier, c, later, hlast, hrecorded⟩
    · by_cases henters : w.Enters case role t b
      · exact Or.inr ⟨[], t, rest, ⟨rfl, henters, hnever⟩, hthen⟩
      · have hold := step_records hl ha (havoid t List.mem_cons_self)
          (hfits t List.mem_cons_self) henters hthen
        exact Or.inl ⟨hold, hnever.cons henters⟩
    · exact Or.inr ⟨t :: earlier, c, later, hlast.cons, hrecorded⟩

/-! ### The input of an inference -/

/-- What is asked of the runtime, and what is recorded of the input of its case. -/
structure Requests (w : Site σ) (t : Turn) (fs : Files) (case : String) (o : InferOptions)
    (request : Request) (e : TensorEntry) : Prop where
  /-- The runtime is asked to read the path of the area. -/
  request : request = w.tools.runtime.request .runtime
    (["infer", (w.area t).artifactPath, (w.area t).tensorPath case .candidate,
      "--dataset", (w.area t).tensorPath case .input] ++ o.toArgs) w.root
  /-- The manifest records an input for the case. -/
  recorded : ∃ m, (w.area t).Lists fs m ∧ m.tensor? case .input = some e
  /-- The recorded file has the recorded digest. -/
  backed : (w.area t).Backs fs e.file e.sha256

/-- After a first clearing, and whatever is staged, compiled and inferred in whatever formats, a
runtime that is launched finds the recorded input of its case with the recorded digest. It is told
to read it when the last turn that recorded an input for the case had the format of the inferring
one, and only then. -/
theorem infers_recorded_input {fs : Files} (hl : w.launcher.KeepsTo w.tools w.root)
    (hfirst : first.task = .clear) (hup : ¬ OnPath w.root (w.area first).manifestSpot)
    (hstart : (w.area first).Leads b.files ∨ b.files.get? (w.area first).manifestSpot = none)
    (hturns : ∀ t ∈ turns, Ordinary t)
    (hj : ∀ t ∈ first :: turns, t.journal.Aside (w.area t))
    (h : w.Infers t (w.after b (first :: turns)) fs) :
    ∃ case o request e earlier c later, t.task = .infer case o ∧
      ((w.area t).prepareInfer w.tools.runtime case o).run (w.after b (first :: turns)).files =
        (.ok request, fs) ∧
      w.Requests t fs case o request e ∧
      w.Last (w.Enters case .input) (w.step b first) turns earlier c later ∧
      ((w.area t).Feeds fs case e ↔ c.format = t.format) := by
  obtain ⟨-, case, o, request, htask, hp⟩ := h
  have hthere : (w.area t).Upholds (w.area t).Supplies (w.after b (first :: turns)).files :=
    run_supplies hl hfirst hup hstart hturns hj t.format
  obtain ⟨hcase, -⟩ := hthere.prepared hp
  obtain ⟨m, e, hlisted, hlists, he, hnamed, hback⟩ := hthere.input hp
  have hrequest := ((w.area t).prepareInfer_ends _ case o _).of_ok hp |>.1
  have havoid : ∀ turn ∈ turns, w.Avoids (w.area t).manifestSpot turn := fun turn hturn =>
    (hturns turn hturn).avoids (hj turn (List.mem_cons_of_mem first hturn))
  rcases run_entered (a := w.area t) hl rfl havoid (fun turn hturn => (hturns turn hturn).fits)
      (hlisted.records he) with hold | ⟨earlier, c, later, hlast, hrecorded⟩
  · -- the first clearing has left no record
    obtain ⟨_, ⟨bytes, _, hget, -⟩, -⟩ := hold
    have hnone := step_clear_unlisted hfirst hup hstart (hj first List.mem_cons_self)
    exact absurd (hnone.symm.trans hget) (by simp)
  · refine ⟨case, o, request, e, earlier, c, later, htask, hp, ⟨hrequest, ⟨m, hlists, he⟩, hback⟩,
      hlast, ?_⟩
    have hc : c ∈ turns := by
      rw [hlast.split]
      simp
    rw [after_append] at hrecorded
    have hthen : (w.area c).Records (w.step (w.after (w.step b first) earlier) c).files case
        .input e := hrecorded.of_root rfl
    have hfile : e.file = (w.area c).tensorFile case .input :=
      enters_names (by decide) (havoid c hc).journal hlast.holds hthen
    rw [Area.feeds_iff hcase hnamed hback, hfile]
    constructor
    · intro hsame
      exact (Area.tensorFile_inj hsame).2.2
    · intro hformat
      rw [area, area, hformat]

/-- The compiler leaves an artifact, and the runtime leaves nothing. -/
def prepared : Bench (List Answer) := fresh [⟨some [0], 0⟩]

/-- A model and an input are staged and compiled after a first clearing. -/
def fedTurns : List Turn :=
  [quietly (.saveModel ⟨⟨[1], .f32⟩, .graph, .ok []⟩),
    quietly (.saveTensor "case" .input one), compiling]

theorem fed_infers : ∃ fs,
    rehearsal.Infers inferring (rehearsal.after prepared (quietly .clear :: fedTurns)) fs := by
  have hturns : quietly .clear :: fedTurns = staging ++ [compiling] := rfl
  obtain ⟨m, content, hcompiled, hready⟩ := furnished_compiled rehearsal.tools .rehearsed
    (b := prepared) rfl rfl (Launcher.rehearsed_answers ⟨some [0], 0⟩ [])
  obtain ⟨fs, hinfers, -⟩ := hcompiled.infers (t := inferring) rfl rfl hready rfl
    (by rintro _ rfl; exact Launcher.rehearsed_answers_nil)
  rw [hturns]
  exact ⟨fs, hinfers⟩

/-- The runtime is fed the input that was staged in the one format that is used. -/
theorem rehearsal_fed : ∃ fs case e,
    rehearsal.Infers inferring (rehearsal.after prepared (quietly .clear :: fedTurns)) fs ∧
      (∃ m, (rehearsal.area inferring).Lists fs m ∧ m.tensor? case .input = some e) ∧
      (rehearsal.area inferring).Feeds fs case e := by
  obtain ⟨fs, hinfers⟩ := fed_infers
  have hordinary : ∀ t ∈ fedTurns, Ordinary t := by
    simp only [fedTurns, List.forall_mem_cons, List.not_mem_nil, false_implies, implies_true,
      and_true]
    refine ⟨⟨?_, nofun⟩, ⟨nofun, ?_⟩, nofun, nofun⟩
    · intro source hsource
      cases hsource
      decide
    · intro case role tensor htensor
      cases htensor
      exact show ∀ d ∈ one.shape, d < wordLimit by decide
  have hsilent : ∀ t ∈ quietly .clear :: fedTurns, t.journal.path = none := by decide
  have hraw : ∀ t ∈ fedTurns, t.format = inferring.format := by decide
  obtain ⟨case, o, request, e, earlier, c, later, -, -, hrequests, hlast, hfeeds⟩ :=
    infers_recorded_input (w := rehearsal) rehearsal_keepsTo rfl
      (Area.not_onPath_manifestSpot (a := rehearsal.area (quietly .clear)) (by decide))
      (Or.inr rfl) hordinary (aside_of_silent hsilent) hinfers
  have hc : c ∈ fedTurns := by
    rw [hlast.split]
    simp
  exact ⟨_, case, e, hinfers, hrequests.recorded, hfeeds.mpr (hraw c hc)⟩

/-- The number two, alone in a tensor. -/
def two : Tensor := ⟨[1], .f32 [⟨0x40000000⟩]⟩

/-- After the input is staged as a raw file, another one is staged in a file with a header. -/
def restagedTurns : List Turn :=
  staging ++ [⟨.npy, {}, .saveTensor "case" .input two⟩, compiling]

/-- The area of the file with a header. -/
def headed : Area := ⟨"w", .npy⟩

set_option maxRecDepth 10000 in
/-- The other input is staged in other bytes. -/
theorem headed_bytes : ∃ bytes, headed.fileBytes "case" .input two = .ok bytes ∧
    Digest.sha256Hex one.elements.toBytes ≠ Digest.sha256Hex bytes := by
  have hdiffers : (headed.fileBytes "case" .input two).toOption.any
      (fun bytes => Digest.sha256Hex one.elements.toBytes != Digest.sha256Hex bytes) = true := by
    decide +kernel
  obtain ⟨bytes, hbytes, hdigest⟩ := (Option.any_eq_true _ _).mp hdiffers
  exact ⟨bytes, ok_of_toOption hbytes, bne_iff_ne.mp hdigest⟩

/-- The runtime is launched on the input that was staged first, whose digest is not the recorded
one. -/
theorem restaged_unfed : ∃ fs m e bytes,
    rehearsal.Infers inferring (rehearsal.after prepared restagedTurns) fs ∧
      (rehearsal.area inferring).Lists fs m ∧ m.tensor? "case" .input = some e ∧
      (rehearsal.area inferring).tensorPath "case" .input ≠ join rehearsal.root e.file ∧
      fs.read ((rehearsal.area inferring).tensorPath "case" .input) = .ok bytes ∧
      Digest.sha256Hex bytes ≠ e.sha256 := by
  obtain ⟨bytes, hbytes, hdigest⟩ := headed_bytes
  obtain ⟨m, content, hstaged, hprovides, hraw⟩ :=
    furnished_staging rehearsal.tools .rehearsed (b := prepared) rfl
  have hadmitted : Files.admits "w" (headed.tensorFile "case" .input) = .ok () := by rfl
  have hnamed : headed.Offers (headed.tensorFile "case" .input) :=
    Area.offers_tensorFile rfl hadmitted
  have hoffers : (rehearsal.area inferring).Offers (headed.tensorFile "case" .input) :=
    ⟨hnamed.isName, hnamed.apart, hadmitted⟩
  have hrestaged := hstaged.saveTensor (t := ⟨.npy, {}, .saveTensor "case" .input two⟩) rfl rfl rfl
    hbytes hadmitted (show ∀ d ∈ two.shape, d < wordLimit by decide)
  have hfed := hprovides.restage (b := headed)
    (headed.tensorFile_ne_fixed Area.graph_fixed "case" .input).symm hoffers rfl rfl rfl
    (e := headed.entryOf "case" .input two bytes) bytes
  have hcompiled := hrestaged.compile (t := compiling) rfl rfl (compilable_graph hfed) rfl
    (by rintro _ rfl; exact Launcher.rehearsed_answers ⟨some [0], 0⟩ [])
  obtain ⟨fs, hinfers, hstocked⟩ := hcompiled.infers (t := inferring) rfl rfl
    (inferable_graph (provides_compiled hfed (some [0])) (Function.update_self ..)) rfl
    (by rintro _ rfl; exact Launcher.rehearsed_answers_nil)
  have hrun : rehearsal.after prepared restagedTurns =
      rehearsal.step (rehearsal.step (rehearsal.after prepared staging)
        ⟨.npy, {}, .saveTensor "case" .input two⟩) compiling := by
    rw [restagedTurns, after_append, after_cons, after_cons, after_nil]
  rw [hrun]
  have hpath : (rehearsal.area inferring).tensorPath "case" .input ≠
      join "w" (headed.tensorFile "case" .input) := by decide
  refine ⟨fs, _, _, _, hinfers, hstocked.lists, Manifest.tensor?_record _ _, hpath, ?_, hdigest⟩
  refine hstocked.read (Area.offers_tensorFile rfl (by rfl)) ?_
  rw [Function.update_of_ne (by decide), Function.update_of_ne (by decide),
    Function.update_of_ne (by decide)]
  exact hraw

end Site

end NetTrial
