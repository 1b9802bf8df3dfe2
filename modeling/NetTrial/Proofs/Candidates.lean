import NetTrial.Proofs.StockedTurns
/-!
# Candidates of failed inferences

An inference that fails records nothing. What a comparison finds afterwards was recorded before
it; and if the recorded file is the one that the inference should have written, its bytes were
left by a launch of the runtime whose inference failed. Without such bytes, or without such a
record, there is no comparison until a candidate is recorded again.
-/

namespace NetTrial

open NetTrial.Path Text NetTrial.Action

namespace Area

variable {a a' : Area} {fs fs' : Files} {case : String} {role : Role} {e : TensorEntry}

theorem Records.of_root (h : a.Records fs case role e) (hroot : a.root = a'.root) :
    a'.Records fs case role e := by
  obtain ⟨m, ⟨bytes, cs, hg, hd, hm⟩, he⟩ := h
  refine ⟨m, ⟨bytes, cs, ?_, hd, hm⟩, he⟩
  rw [manifestSpot, ← hroot]
  exact hg

/-- What is recorded once a model is staged was recorded before. -/
theorem Records.of_stageModel {source : ModelSource}
    (hspot : location (a.modelPath source) ≠ a.manifestSpot)
    (h : a.Records ((a.stageModel source).run fs).2 case role e) : a.Records fs case role e := by
  rcases a.stageModel_ends source fs with ⟨cause, he⟩ | ⟨bytes, r, fs', -, hrun, hends⟩
  · rw [he] at h
    exact h
  · rw [hrun] at h
    exact hends.records hspot (fun m hm => hm.withModel _) (fun _ _ => rfl) h

/-- What is recorded once a tensor is staged was recorded before, unless it is that tensor. -/
theorem Records.of_stageTensor {c : String} {r : Role} {t : Tensor} (hfits : t.shape.Fits)
    (hother : c = case → r = role → ∀ path, ((a.stageTensor c r t).run fs).1 ≠ .ok path)
    (h : a.Records ((a.stageTensor c r t).run fs).2 case role e) : a.Records fs case role e := by
  rcases a.stageTensor_ends c r t fs with ⟨cause, he⟩ | ⟨bytes, result, fs', -, -, hrun, hends⟩
  · rw [he] at h
    exact h
  · rw [hrun] at h hother
    refine hends.records (a.location_tensorPath_ne_fixed manifest_fixed c r)
      (fun m hm => hm.record (fits_entryOf hfits _)) (fun hok m => ?_) h
    refine m.tensor?_record_of_ne fun hsame => ?_
    exact hother hsame.1 hsame.2 (a.tensorPath c r) (by rw [hok]; rfl)

/-- What is recorded once a tensor that a tool wrote is recorded was recorded before, unless it is
that tensor. -/
theorem Records.of_recordExternal {c : String} {r : Role} {kind : ElementType}
    (hother : c = case → r = role → ∀ entry, ((a.recordExternal c r kind).run fs).1 ≠ .ok entry)
    (h : a.Records ((a.recordExternal c r kind).run fs).2 case role e) :
    a.Records fs case role e := by
  rcases a.recordExternal_ends c r kind fs with
    ⟨cause, he⟩ | ⟨bytes, told, m, -, -, htold, -, hm, hrun⟩
  · rw [he] at h
    exact h
  · rw [hrun] at h hother
    refine Records.of_withManifest hm (hm.fits.record (fits_externalEntry htold bytes)) ?_ h
    exact m.tensor?_record_of_ne fun hsame => hother hsame.1 hsame.2 _ rfl

/-- What an inference leaves recorded was recorded before it, unless it is the candidate that it
recorded itself. -/
theorem Inferring.records {σ : Type} {l : Launcher σ} {tools : Toolchain} {c : String}
    {o : InferOptions} {b b' : Bench σ} {r : Except Failure String}
    (h : a.Inferring l tools.runtime c o b r b') (hl : l.KeepsTo tools a.root)
    (hother : c = case → role = .candidate → ∀ path, r ≠ .ok path)
    (hr : a.Records b'.files case role e) : a.Records b.files case role e := by
  have hspot := (a.candidateSpot_ne_manifestSpot c).symm
  cases r with
  | error _ => exact hr.of_spares (h.spares_of_error hl) hspot
  | ok path =>
    cases h with
    | @recorded request fs _ _ hp _ hrecord =>
      have hlaunched := ((a.prepareInfer_ends _ c o _).of_ok hp).2.2.2.1.1.trans
        (hl.runtime b.tools rfl hp).spares
      have hrecorded : a.Records ((a.recordExternal c .candidate .f32).run
          (Bench.launch l request c { b with files := fs }).2.files).2 case role e := by
        rw [hrecord]
        exact hr
      refine (hrecorded.of_recordExternal fun hcase hrole _ _ => ?_).of_spares hlaunched hspot
      exact hother hcase hrole.symm _ rfl

end Area

namespace Site

variable {σ : Type} {w : Site σ} {t : Turn} {b : Bench σ} {a : Area} {case : String}

/-- A turn records a tensor of a case and role. -/
def Enters (w : Site σ) (case : String) (role : Role) (t : Turn) (b : Bench σ) : Prop :=
  match t.task with
  | .saveTensor c r tensor => c = case ∧ r = role ∧
    ∃ path, (((w.area t).stageTensor c r tensor).run b.files).1 = .ok path
  | .recordExternal c r kind => c = case ∧ r = role ∧
    ∃ entry, (((w.area t).recordExternal c r kind).run b.files).1 = .ok entry
  | .infer c o => c = case ∧ role = .candidate ∧
    ∃ path, (((w.area t).inferStaged w.launcher w.tools.runtime c o).run b).1 = .ok path
  | _ => False

/-- A turn records a candidate of a case. -/
def Renews (w : Site σ) (case : String) (t : Turn) (b : Bench σ) : Prop :=
  match t.task with
  | .saveTensor c r tensor => c = case ∧ r = .candidate ∧
    ∃ path, (((w.area t).stageTensor c r tensor).run b.files).1 = .ok path
  | .recordExternal c r kind => c = case ∧ r = .candidate ∧
    ∃ entry, (((w.area t).recordExternal c r kind).run b.files).1 = .ok entry
  | .infer c o => c = case ∧
    ∃ path, (((w.area t).inferStaged w.launcher w.tools.runtime c o).run b).1 = .ok path
  | _ => False

/-- The dimensions of a tensor that a turn stages are words. -/
def Turn.Fits (t : Turn) : Prop :=
  ∀ case role tensor, t.task = .saveTensor case role tensor → Shape.Fits tensor.shape

theorem renews_iff : w.Renews case t b ↔ w.Enters case .candidate t b := by
  rw [Renews, Enters]
  cases t.task <;> simp

/-- A record that a turn does not enter is an old one. -/
theorem step_records {role : Role} (hl : w.launcher.KeepsTo w.tools w.root) (ha : a.root = w.root)
    (havoid : w.Avoids a.manifestSpot t) (hfits : Turn.Fits t) (hr : ¬ w.Enters case role t b)
    {e : TensorEntry} (h : a.Records (w.step b t).files case role e) :
    a.Records b.files case role e := by
  have hroot : a.root = (w.area t).root := ha
  have hspot : a.manifestSpot = (w.area t).manifestSpot := by
    rw [Area.manifestSpot, hroot]
    rfl
  rw [hspot] at havoid
  refine Area.Records.of_root ?_ hroot.symm
  obtain ⟨bare, htaken, hlogged⟩ := w.step_taken t b
  replace h := (h.of_root hroot).of_spares hlogged.spares havoid.journal
  rw [Enters] at hr
  cases htaken with
  | clear ht =>
    obtain ⟨m, hsays, hm⟩ := h
    exact ⟨m, hsays.of_file fun bytes => Area.reset_old, hm⟩
  | saveModel source ht => exact h.of_stageModel (havoid.model source ht)
  | saveTensor c r tensor ht =>
    rw [ht] at hr
    exact h.of_stageTensor (hfits c r tensor ht) fun hc hrole path hok =>
      hr ⟨hc, hrole, path, hok⟩
  | recordExternal c r kind ht =>
    rw [ht] at hr
    exact h.of_recordExternal fun hc hrole entry hok => hr ⟨hc, hrole, entry, hok⟩
  | compile o ht =>
    have hends := (w.area t).compileStaged_ends w.launcher w.tools.compiler o b
    exact h.of_spares (hends.spares hl) (w.area t).artifactSpot_ne_manifestSpot.symm
  | infer c o ht =>
    rw [ht] at hr
    have hends := (w.area t).inferStaged_ends w.launcher w.tools.runtime c o b
    exact hends.records hl (fun hc hrole path hok => hr ⟨hc, hrole, path, hok⟩) h

/-- A launch of the runtime left bytes at a place, and its inference failed. -/
def LeavesBehind (w : Site σ) (spot : Location) (t : Turn) (b : Bench σ) (bytes : Bytes) : Prop :=
  ∃ case o request fs, t.task = .infer case o ∧ (w.area t).candidateSpot case = spot ∧
    (∃ e, (((w.area t).inferStaged w.launcher w.tools.runtime case o).run b).1 = .error e) ∧
    ((w.area t).prepareInfer w.tools.runtime case o).run b.files = (.ok request, fs) ∧
    (Bench.launch w.launcher request case { b with files := fs }).2.files.get? spot =
      some (.file bytes)

/-- The place of a candidate tells its case and format. -/
theorem candidateSpot_inj (ha : a.root = w.root) {c : String}
    (hcase : Area.checkCase case = .ok ()) (hc : Area.checkCase c = .ok ())
    (h : (w.area t).candidateSpot c = a.candidateSpot case) : c = case := by
  rw [Area.candidateSpot_eq (Area.checkCase_ok hc).1,
    Area.candidateSpot_eq (Area.checkCase_ok hcase).1, ha] at h
  exact (Area.tensorFile_inj (entry_inj h)).1

theorem candidateSpot_ne_manifest (ha : a.root = w.root) (case : String) (t : Turn) :
    a.candidateSpot case ≠ (w.area t).manifestSpot := by
  have hne := a.candidateSpot_ne_manifestSpot case
  rw [Area.manifestSpot, ha] at hne
  exact hne

/-- What an inference leaves at the place of a candidate was there before, or was left behind by
a launch whose inference failed. -/
theorem infer_candidate {c : String} {o : InferOptions} (ht : t.task = .infer c o)
    (hl : w.launcher.KeepsTo w.tools w.root) (ha : a.root = w.root)
    (hcase : Area.checkCase case = .ok ()) (hr : ¬ w.Renews case t b) {bytes : Bytes}
    (hf : (((w.area t).inferStaged w.launcher w.tools.runtime c o).run b).2.files.get?
      (a.candidateSpot case) = some (.file bytes)) :
    b.files.get? (a.candidateSpot case) = some (.file bytes) ∨
      w.LeavesBehind (a.candidateSpot case) t b bytes := by
  have hends := (w.area t).inferStaged_ends w.launcher w.tools.runtime c o b
  have hmanifest := candidateSpot_ne_manifest ha case t
  by_cases hspot : (w.area t).candidateSpot c = a.candidateSpot case
  · simp only [Renews, ht] at hr
    rcases hbare : ((w.area t).inferStaged w.launcher w.tools.runtime c o).run b with ⟨r, b'⟩
    rw [hbare] at hends hf hr
    have hleft : ∀ {e request fs}, r = .error e →
        ((w.area t).prepareInfer w.tools.runtime c o).run b.files = (.ok request, fs) →
        b' = (Bench.launch w.launcher request c { b with files := fs }).2 →
        w.LeavesBehind (a.candidateSpot case) t b bytes := by
      intro e request fs he hp hb'
      refine ⟨c, o, request, fs, ht, hspot, ⟨e, by rw [hbare, he]⟩, hp, ?_⟩
      rw [← hb']
      exact hf
    cases hends with
    | refused => exact Or.inl hf
    | unread hp =>
      left
      rcases ((w.area t).prepareInfer_ends _ c o _).of_ok hp |>.2.2.2.1.2 (a.candidateSpot case)
        with hn | he
      · rw [hn] at hf
        cases hf
      · rw [← he]
        exact hf
    | failed hp _ => exact Or.inr (hleft rfl hp rfl)
    | unrecorded hp _ => exact Or.inr (hleft rfl hp rfl)
    | recorded hp _ hrecord =>
      rcases (w.area t).recordExternal_ends c .candidate .f32 _ with
        ⟨_, he⟩ | ⟨_, _, _, hc, -, -, -, -, -⟩
      · rw [he] at hrecord
        cases hrecord
      · exact absurd ⟨candidateSpot_inj ha hcase hc hspot, _, rfl⟩ hr
  · left
    refine (hends.spares hl).file _ ?_ bytes |>.mp hf
    rintro (hx | hx)
    · exact hspot hx.symm
    · exact hmanifest hx

/-- A candidate that is recorded after a tensor was staged was there before, unless it is the
tensor. -/
theorem stageTensor_candidate (ha : a.root = w.root) (hcase : Area.checkCase case = .ok ())
    (hspoken : Files.admits a.root Area.manifestName = .ok ()) {c : String} {role : Role}
    {tensor : Tensor} {fs : Files}
    (hr : ¬ (c = case ∧ role = .candidate ∧
      ∃ path, (((w.area t).stageTensor c role tensor).run fs).1 = .ok path))
    {e : TensorEntry}
    (hrec : (w.area t).Records (((w.area t).stageTensor c role tensor).run fs).2 case .candidate e)
    {bytes : Bytes} (hf : (((w.area t).stageTensor c role tensor).run fs).2.get?
      (a.candidateSpot case) = some (.file bytes)) :
    fs.get? (a.candidateSpot case) = some (.file bytes) := by
  have hroot : a.root = (w.area t).root := ha
  have hne := candidateSpot_ne_manifest ha case t
  rcases (w.area t).stageTensor_ends c role tensor fs with
    ⟨e', he⟩ | ⟨file, r, fs', hc, -, hrun, hends⟩
  · rw [he] at hf
    exact hf
  · rw [hrun] at hf hrec hr
    cases hends with
    | refused hg => exact hg.file hf
    | unrecorded hst hfail =>
      -- a tensor that was written without its record leaves no manifest to be read
      obtain ⟨m, hsays, -⟩ := hrec
      have hlist := hsays.lists hst.stands (hroot ▸ hspoken)
      rw [Area.Lists, hfail] at hlist
      cases hlist
    | recorded hst hlist =>
      replace hf := ((Area.withManifest_spares hlist hst.stands _).file _ hne bytes).mp hf
      refine (hst.spares.file _ ?_ bytes).mp hf
      intro hpath
      have hname : location ((w.area t).tensorPath c role) =
          location w.root ++ [(w.area t).tensorFile c role] :=
        location_join w.root ((w.area t).isName_tensorFile (Area.checkCase_ok hc).1 role)
      rw [hname, Area.candidateSpot_eq (Area.checkCase_ok hcase).1, ha] at hpath
      obtain ⟨hsc, hsr, -⟩ := Area.tensorFile_inj (entry_inj hpath)
      exact hr ⟨hsc.symm, hsr.symm, _, rfl⟩

/-- What is found at the place of a candidate after a turn that does not renew it was there
before, or was left behind by a launch whose inference failed. -/
theorem step_candidate (hl : w.launcher.KeepsTo w.tools w.root) (ha : a.root = w.root)
    (havoid : w.Avoids (a.candidateSpot case) t) (hmanifest : w.Avoids a.manifestSpot t)
    (hcase : Area.checkCase case = .ok ())
    (hspoken : Files.admits a.root Area.manifestName = .ok ()) (hr : ¬ w.Renews case t b)
    {e : TensorEntry} (hrec : a.Records (w.step b t).files case .candidate e) {bytes : Bytes}
    (hf : (w.step b t).files.get? (a.candidateSpot case) = some (.file bytes)) :
    b.files.get? (a.candidateSpot case) = some (.file bytes) ∨
      w.LeavesBehind (a.candidateSpot case) t b bytes := by
  have hroot : a.root = (w.area t).root := ha
  have hne := candidateSpot_ne_manifest ha case t
  have old : ¬ TaskPlaces (w.area t) t.task (a.candidateSpot case) →
      b.files.get? (a.candidateSpot case) = some (.file bytes) :=
    fun hplace => step_old hl (fun hx => hx.elim havoid.journal hplace) hf
  obtain ⟨bare, htaken, hlogged⟩ := w.step_taken t b
  replace hf := (hlogged.file havoid.journal).mp hf
  replace hrec := (hrec.of_spares hlogged.spares hmanifest.journal).of_root hroot
  cases htaken with
  | infer c o ht => exact infer_candidate ht hl ha hcase hr hf
  | saveTensor c role tensor ht =>
    simp only [Renews, ht] at hr
    exact Or.inl (stageTensor_candidate ha hcase hspoken hr hrec hf)
  | clear ht => exact Or.inl (old (by rw [ht]; exact not_false))
  | saveModel source ht =>
    refine Or.inl (old ?_)
    rw [ht]
    rintro (hx | hx)
    · exact havoid.model source ht hx.symm
    · exact hne hx
  | recordExternal c role kind ht =>
    refine Or.inl (old ?_)
    rw [ht]
    exact hne
  | compile o ht =>
    refine Or.inl (old ?_)
    rw [ht]
    have hartifact := a.candidateSpot_ne_artifactSpot case
    rw [Area.artifactSpot, ha] at hartifact
    exact hartifact

/-! ## Runs -/

/-- No turn of a run records a candidate of a case, and none keeps its journal or its model where
the manifest or the candidate is. -/
structure Quiet (w : Site σ) (a : Area) (case : String) (b : Bench σ) (turns : List Turn) :
    Prop where
  /-- No turn records the candidate. -/
  renews : ∀ before turn, before ++ [turn] <+: turns → ¬ w.Renews case turn (w.after b before)
  /-- The manifest is the area's own. -/
  manifest : ∀ turn ∈ turns, w.Avoids a.manifestSpot turn
  /-- The candidate is the runtime's own. -/
  candidate : ∀ turn ∈ turns, w.Avoids (a.candidateSpot case) turn
  /-- The dimensions of what is staged are words. -/
  fits : ∀ turn ∈ turns, Turn.Fits turn

variable {turns later : List Turn}

theorem Quiet.head (h : w.Quiet a case b (t :: later)) : ¬ w.Renews case t b :=
  h.renews [] t (List.cons_prefix_cons.mpr ⟨rfl, List.nil_prefix⟩)

theorem Quiet.tail (h : w.Quiet a case b (t :: later)) : w.Quiet a case (w.step b t) later where
  renews before turn hp := h.renews (t :: before) turn (List.cons_prefix_cons.mpr ⟨rfl, hp⟩)
  manifest turn hturn := h.manifest turn (List.mem_cons_of_mem _ hturn)
  candidate turn hturn := h.candidate turn (List.mem_cons_of_mem _ hturn)
  fits turn hturn := h.fits turn (List.mem_cons_of_mem _ hturn)

/-- What is recorded of a candidate after a quiet run was recorded before it. -/
theorem run_records (hl : w.launcher.KeepsTo w.tools w.root) (ha : a.root = w.root)
    (hquiet : w.Quiet a case b turns) {e : TensorEntry}
    (h : a.Records (w.after b turns).files case .candidate e) :
    a.Records b.files case .candidate e := by
  induction turns generalizing b with
  | nil => exact h
  | cons t later ih =>
    have hstep := ih hquiet.tail (by rw [← after_cons]; exact h)
    exact step_records hl ha (hquiet.manifest t List.mem_cons_self)
      (hquiet.fits t List.mem_cons_self) (mt (renews_iff).mpr hquiet.head) hstep

/-- Some launch of a run left bytes at a place, and its inference failed. -/
def LeftBehind (w : Site σ) (spot : Location) (turns : List Turn) (b : Bench σ) (bytes : Bytes) :
    Prop :=
  ∃ before t later, turns = before ++ t :: later ∧ w.LeavesBehind spot t (w.after b before) bytes

theorem LeavesBehind.leftBehind {spot : Location} {bytes : Bytes}
    (h : w.LeavesBehind spot t b bytes) (later : List Turn) :
    w.LeftBehind spot (t :: later) b bytes := ⟨[], t, later, rfl, h⟩

theorem LeftBehind.cons {spot : Location} {bytes : Bytes}
    (h : w.LeftBehind spot later (w.step b t) bytes) : w.LeftBehind spot (t :: later) b bytes := by
  obtain ⟨before, turn, rest, hsplit, hleaves⟩ := h
  exact ⟨t :: before, turn, rest, by rw [hsplit, List.cons_append], hleaves⟩

/-- What is found at the place of a candidate after a quiet run, while the candidate is recorded,
was there before it or was left behind in it. -/
theorem run_candidate (hl : w.launcher.KeepsTo w.tools w.root) (ha : a.root = w.root)
    (hcase : Area.checkCase case = .ok ())
    (hspoken : Files.admits a.root Area.manifestName = .ok ())
    (hquiet : w.Quiet a case b turns) {e : TensorEntry}
    (hrec : a.Records (w.after b turns).files case .candidate e) {bytes : Bytes}
    (hf : (w.after b turns).files.get? (a.candidateSpot case) = some (.file bytes)) :
    b.files.get? (a.candidateSpot case) = some (.file bytes) ∨
      w.LeftBehind (a.candidateSpot case) turns b bytes := by
  induction turns generalizing b with
  | nil => exact Or.inl hf
  | cons t later ih =>
    rw [after_cons] at hrec hf
    rcases ih hquiet.tail hrec hf with hstep | hleft
    · have hrecorded := run_records hl ha hquiet.tail hrec
      rcases step_candidate hl ha (hquiet.candidate t List.mem_cons_self)
        (hquiet.manifest t List.mem_cons_self) hcase hspoken hquiet.head hrecorded hstep with
        hold | hnow
      · exact Or.inl hold
      · exact Or.inr (hnow.leftBehind later)
    · exact Or.inr hleft.cons

/-! ## After a failed inference -/

/-- A failure of a logged inference that is not one of the file system is a failure of the
inference itself, which then records nothing. -/
theorem not_renews_of_error {o : InferOptions} (ht : t.task = .infer case o) {e : Failure}
    (he : (((w.area t).infer t.journal w.launcher w.tools.runtime case o).run b).1 = .error e)
    (hos : ∀ path cause, e ≠ .os path cause) : ¬ w.Renews case t b := by
  simp only [Renews, ht]
  rintro ⟨-, path, hok⟩
  rcases (step_infer ht b).1.error he with hbare | ⟨spot, cause, hcause⟩
  · rw [hok] at hbare
    cases hbare
  · exact hos spot cause hcause

/-- What is at the place of a candidate after an inference that launched the runtime and failed
was left behind by that launch. -/
theorem launched_leaves {o : InferOptions} (ht : t.task = .infer case o)
    (hlaunched : (w.step b t).ledger ≠ b.ledger) (hr : ¬ w.Renews case t b)
    (havoid : w.Avoids ((w.area t).candidateSpot case) t) {bytes : Bytes}
    (hf : (w.step b t).files.get? ((w.area t).candidateSpot case) = some (.file bytes)) :
    w.LeavesBehind ((w.area t).candidateSpot case) t b bytes := by
  obtain ⟨hcloses, hrun⟩ := step_infer (w := w) ht b
  rw [step, hrun] at hf hlaunched
  replace hf := (hcloses.spares.file _ havoid.journal bytes).mp hf
  rw [hcloses.ledger] at hlaunched
  simp only [Renews, ht, true_and] at hr
  have hends := (w.area t).inferStaged_ends w.launcher w.tools.runtime case o b
  rcases hbare : ((w.area t).inferStaged w.launcher w.tools.runtime case o).run b with ⟨r, b'⟩
  rw [hbare] at hends hf hr hlaunched
  cases hends with
  | refused => exact absurd rfl hlaunched
  | unread _ => exact absurd rfl hlaunched
  | failed hp _ => exact ⟨case, o, _, _, ht, rfl, ⟨_, by rw [hbare]⟩, hp, hf⟩
  | unrecorded hp _ => exact ⟨case, o, _, _, ht, rfl, ⟨_, by rw [hbare]⟩, hp, hf⟩
  | recorded _ _ _ => exact absurd ⟨_, rfl⟩ hr

/-- What it takes for a comparison to succeed after a failed inference and other turns: a
candidate was recorded before the inference; its record is still there, and its file is close
enough to what is expected; and when that file is the one that the inference was to write, a
launch whose inference failed has left it behind. -/
def Outlives (w : Site σ) (a : Area) (case : String) (tolerance : Double) (t : Turn)
    (later : List Turn) (b : Bench σ) : Prop :=
  ∃ e bytes comparison, (w.area t).Records b.files case .candidate e ∧
    a.Compares (w.after b (t :: later)).files case tolerance e bytes comparison ∧
    (Area.checkCase case = .ok () →
      location (join w.root e.file) = (w.area t).candidateSpot case →
        w.LeftBehind ((w.area t).candidateSpot case) (t :: later) b bytes)

/-- When a comparison has succeeded after a failed inference, its candidate outlived that
inference. -/
theorem outlives_of_compares (hl : w.launcher.KeepsTo w.tools w.root) {o : InferOptions}
    (ht : t.task = .infer case o) (hlaunched : (w.step b t).ledger ≠ b.ledger)
    (hr : ¬ w.Renews case t b) (hmanifest : w.Avoids (w.area t).manifestSpot t)
    (hcandidate : w.Avoids ((w.area t).candidateSpot case) t)
    (hquiet : w.Quiet (w.area t) case (w.step b t) later) (ha : a.root = w.root)
    {tolerance : Double} {e : TensorEntry} {bytes : Bytes} {comparison : Comparison}
    (h : a.Compares (w.after b (t :: later)).files case tolerance e bytes comparison) :
    w.Outlives a case tolerance t later b := by
  have hcompares := h
  rw [after_cons] at h
  obtain ⟨pair, hpair, -⟩ := h
  obtain ⟨m, hm, he⟩ := hpair.entry
  have hend : (w.area t).Records (w.after (w.step b t) later).files case .candidate e := by
    refine Area.Records.of_root (a := a) ?_ ha
    exact hm.records he
  have hstep := run_records (a := w.area t) hl rfl hquiet hend
  have hfits : Turn.Fits t := by
    intro c role tensor hsave
    rw [ht] at hsave
    cases hsave
  have hbefore := step_records (a := w.area t) hl rfl hmanifest hfits (mt renews_iff.mpr hr) hstep
  refine ⟨e, bytes, comparison, hbefore, hcompares, fun hcase hspot => ?_⟩
  have hfile := Files.read_location hpair.file
  rw [ha, hspot] at hfile
  have hspoken := hm.spoken he
  rw [ha] at hspoken
  rcases run_candidate (a := w.area t) hl rfl hcase hspoken hquiet hend hfile with hthen | hleft
  · exact (launched_leaves ht hlaunched hr hcandidate hthen).leftBehind later
  · exact hleft.cons

/-- After an inference that launched the runtime and failed, and until a candidate of its case is
recorded again, a comparison succeeds when a candidate outlives the failure, and only then. An
exit code, a signal, a program that was not started and a missing candidate are failures that are
not of the file system. -/
theorem closeTo_iff_outlives (hl : w.launcher.KeepsTo w.tools w.root) {o : InferOptions}
    (ht : t.task = .infer case o) (hlaunched : (w.step b t).ledger ≠ b.ledger) {e : Failure}
    (he : (((w.area t).infer t.journal w.launcher w.tools.runtime case o).run b).1 = .error e)
    (hos : ∀ path cause, e ≠ .os path cause) (hmanifest : w.Avoids (w.area t).manifestSpot t)
    (hcandidate : w.Avoids ((w.area t).candidateSpot case) t)
    (hquiet : w.Quiet (w.area t) case (w.step b t) later) (ha : a.root = w.root) (j : Journal)
    (tolerance : Double) :
    (∀ comparison,
      ((a.closeTo j case tolerance).run (w.after b (t :: later)).files).1 = .ok comparison →
        w.Outlives a case tolerance t later b) ∧
    (j.path = none → w.Outlives a case tolerance t later b → ∃ comparison,
      ((a.closeTo j case tolerance).run (w.after b (t :: later)).files).1 = .ok comparison) := by
  have hr := not_renews_of_error ht he hos
  have hcloses := a.closeTo_closes j case tolerance (w.after b (t :: later)).files
  constructor
  · intro comparison hok
    have hbare := hcloses.ok hok
    obtain ⟨-, entry, bytes, hcompares⟩ := Area.compareStaged_eq_ok.mp (Prod.ext hbare rfl)
    exact outlives_of_compares hl ht hlaunched hr hmanifest hcandidate hquiet ha hcompares
  · rintro hj ⟨entry, bytes, comparison, -, hcompares, -⟩
    rw [hcloses.silent hj, Area.compareStaged_eq_ok.mpr ⟨rfl, entry, bytes, hcompares⟩]
    exact ⟨comparison, rfl⟩

/-- The compiler leaves an artifact, and the runtime launched twice leaves the same candidate; it
ends well the first time only. -/
def relapse : List Answer :=
  [⟨some [0], 0⟩, ⟨some one.elements.toBytes, 0⟩, ⟨some one.elements.toBytes, 1⟩]

/-- The bench when the second inference is asked for. -/
def beforeRelapse : Bench (List Answer) :=
  rehearsal.after (fresh relapse)
    (staging ++ [.saveTensor "case" .expected one, .compile {}, .infer "case" {}].map quietly)

/-- The second inference. -/
def again : Turn := quietly (.infer "case" {})

/-- The area of the second inference. -/
def relapseArea : Area := rehearsal.area again

theorem relapse_described : relapseArea.describe (relapseArea.tensorPath "case" .candidate)
    one.elements.toBytes .f32 = .ok (none, .f32) := rfl

/-- Before the second inference a candidate is on record, and everything is there for another. -/
theorem relapse_furnished : ∃ m content,
    rehearsal.Furnished (· = [⟨some one.elements.toBytes, 1⟩]) 2 m content beforeRelapse ∧
    relapseArea.Inferable "case" {} m content ∧ relapseArea.Staged "case" .expected one m content ∧
    m.tensor? "case" .candidate =
      some (relapseArea.externalEntry "case" .candidate (none, .f32) one.elements.toBytes) := by
  have hslot : ∀ c role, Area.graphName ≠ relapseArea.tensorFile c role :=
    fun c role => (relapseArea.tensorFile_ne_fixed Area.graph_fixed c role).symm
  have hfixed : ∀ role, relapseArea.tensorFile "case" role ≠ Area.artifactName :=
    relapseArea.tensorFile_ne_fixed Area.artifact_fixed "case"
  have hexpected : Files.admits "w" (relapseArea.tensorFile "case" .expected) = .ok () := by rfl
  have hfits : one.shape.Fits := show ∀ d ∈ one.shape, d < wordLimit by decide
  obtain ⟨m, content, hstaging, hprovides, -⟩ :=
    furnished_staging rehearsal.tools .rehearsed (b := fresh relapse) rfl
  have hsaved := hstaging.saveTensor (t := quietly (.saveTensor "case" .expected one)) rfl rfl rfl
    rfl hexpected hfits
  have hprovides₁ : relapseArea.Provides "case" graphSource
      (m.record (relapseArea.entryOf "case" .expected one one.elements.toBytes))
      (Function.update content (relapseArea.tensorFile "case" .expected)
        (some one.elements.toBytes)) :=
    hprovides.enter hslot rfl (by decide) "case" _
  have hstaged := Area.staged_record
    (show relapseArea.fileBytes "case" .expected one = .ok one.elements.toBytes from rfl) m content
  have hcompiled := hsaved.compile (t := quietly (.compile {})) rfl rfl
    (compilable_graph hprovides₁) rfl
    (by rintro _ rfl; exact Launcher.rehearsed_answers ⟨some [0], 0⟩ _)
  have hprovides₂ := provides_compiled hprovides₁ (some [0])
  have hinferred := hcompiled.infer (t := again) rfl rfl
    (inferable_graph hprovides₂ (Function.update_self ..)) rfl
    (by rintro _ rfl; exact Launcher.rehearsed_answers ⟨some one.elements.toBytes, 0⟩ _)
    relapse_described
  have hbefore : beforeRelapse = rehearsal.step (rehearsal.step (rehearsal.step
      (rehearsal.after (fresh relapse) staging) (quietly (.saveTensor "case" .expected one)))
      (quietly (.compile {}))) again := by
    rw [beforeRelapse, after_append, List.map_cons, List.map_cons, List.map_cons, List.map_nil,
      after_cons, after_cons, after_cons, after_nil, again]
  rw [hbefore]
  refine ⟨_, _, hinferred.2, ?_, ?_, Manifest.tensor?_record _ _⟩
  · exact inferable_graph (hprovides₂.enter hslot rfl (by decide) "case" _)
      (.trans (c := some [0]) (Function.update_of_ne (hfixed .candidate).symm ..)
        (Function.update_self ..))
  · exact (hstaged.update (hfixed .expected) _).collect _ _

theorem relapse_run :
    (rehearsal.step beforeRelapse again).ledger.length = beforeRelapse.ledger.length + 1 ∧
    reasonOf (((rehearsal.area again).infer again.journal rehearsal.launcher
      rehearsal.tools.runtime "case" {}).run beforeRelapse).1 = some "harness_infer_failed" ∧
    ∃ comparison, (((rehearsal.area again).closeTo {} "case" ⟨0⟩).run
      (rehearsal.after beforeRelapse [again]).files).1 = .ok comparison := by
  obtain ⟨m, content, hbefore, hready, hstaged, hrecorded⟩ := relapse_furnished
  obtain ⟨hreason, hafter⟩ := hbefore.infer_failed (t := again) rfl rfl hready rfl
    (by rintro _ rfl; exact Launcher.rehearsed_answers ⟨some one.elements.toBytes, 1⟩ _)
    (by decide) rfl relapse_described
  refine ⟨by rw [hafter.ledger, hbefore.ledger], hreason, ?_⟩
  have hexpected : Files.admits "w" (relapseArea.tensorFile "case" .expected) = .ok () := by rfl
  have hcandidate : Files.admits "w" (relapseArea.tensorFile "case" .candidate) = .ok () := by rfl
  have hkept := hstaged.update (show relapseArea.tensorFile "case" .expected ≠
    relapseArea.tensorFile "case" .candidate by decide) (some one.elements.toBytes)
  have hexpects := (hafter.area again).expects rfl hexpected hkept
  have hcollected := (hafter.area again).collected rfl hcandidate relapse_described hrecorded
    (Function.update_self ..)
  have hone : one.Representable := ⟨rfl, by decide, by decide⟩
  obtain ⟨comparison, hcompared⟩ := (Area.compareStaged_iff hexpects hone rfl hcollected).mpr
    ⟨Double.isTolerance_zero, one, ⟨rfl, rfl⟩, (near_zero_iff rfl).mpr (by decide)⟩
  have hsilent := (relapseArea.closeTo_closes {} "case" .zero
    (rehearsal.step beforeRelapse again).files).silent rfl
  refine ⟨comparison, ?_⟩
  have hrun : ((rehearsal.area again).closeTo {} "case" ⟨0⟩).run
      (rehearsal.step beforeRelapse again).files =
        (.ok comparison, (rehearsal.step beforeRelapse again).files) := hsilent.trans hcompared
  rw [after_cons, after_nil, hrun]

theorem again_avoids (spot : Location) : rehearsal.Avoids spot again :=
  quietly_avoids fun source h => by cases h

theorem quiet_nil (w : Site σ) (a : Area) (case : String) (b : Bench σ) :
    w.Quiet a case b [] where
  renews before turn h := by
    have := h.length_le
    simp at this
  manifest turn h := by cases h
  candidate turn h := by cases h
  fits turn h := by cases h

/-- The candidate of the first inference outlives the second one. -/
theorem relapse_outlives :
    rehearsal.Outlives (rehearsal.area again) "case" ⟨0⟩ again [] beforeRelapse := by
  obtain ⟨hlaunched, hreason, hclose⟩ := relapse_run
  obtain ⟨e, he, hcode⟩ := reasonOf_eq_some.mp hreason
  obtain ⟨comparison, hok⟩ := hclose
  have hledger : (rehearsal.step beforeRelapse again).ledger ≠ beforeRelapse.ledger := by
    intro h
    rw [h] at hlaunched
    omega
  have hos : ∀ path cause, e ≠ .os path cause := by
    rintro path cause rfl
    simp [Failure.os, Failure.reasonCode] at hcode
  exact (closeTo_iff_outlives (w := rehearsal) (t := again) (b := beforeRelapse)
    rehearsal_keepsTo rfl hledger he hos (again_avoids _) (again_avoids _)
    (quiet_nil _ _ _ _) rfl {} ⟨0⟩).1 comparison hok

/-- The second inference launches the runtime and fails, and the case is compared all the same. -/
theorem relapse_compares :
    rehearsal.launcher.KeepsTo rehearsal.tools rehearsal.root ∧
    (rehearsal.step beforeRelapse again).ledger.length = beforeRelapse.ledger.length + 1 ∧
    (∃ e, (((rehearsal.area again).infer again.journal rehearsal.launcher
      rehearsal.tools.runtime "case" {}).run beforeRelapse).1 = .error e ∧
      e.reasonCode = "harness_infer_failed") ∧
    ∃ comparison, (((rehearsal.area again).closeTo {} "case" ⟨0⟩).run
      (rehearsal.after beforeRelapse [again]).files).1 = .ok comparison := by
  obtain ⟨hlaunched, hreason, hclose⟩ := relapse_run
  exact ⟨rehearsal_keepsTo, hlaunched, reasonOf_eq_some.mp hreason, hclose⟩

end Site

end NetTrial
