import NetTrial.Proofs.Invoking
import NetTrial.Proofs.Journals
/-!
# Sessions in one directory

A session is a run of turns in one directory. Each turn asks one thing, in the format and with
the journal that are set at the time, and the tools are the same throughout. A turn writes at
places of its own; a file anywhere else was there before, and only clearing takes directories
away.
-/

namespace NetTrial

open NetTrial.Path Text NetTrial.Action

/-- A directory, and the tools that are launched for it. -/
structure Site (σ : Type) where
  /-- The directory. -/
  root : String
  /-- The tools. -/
  tools : Toolchain
  /-- What launches them. -/
  launcher : Launcher σ

/-- What can be asked for in a directory. -/
inductive Task where
  /-- To clear it. -/
  | clear
  /-- To stage a model. -/
  | saveModel (source : ModelSource)
  /-- To stage a tensor. -/
  | saveTensor (case : String) (role : Role) (t : Tensor)
  /-- To record a tensor that was written by someone else. -/
  | recordExternal (case : String) (role : Role) (kind : ElementType)
  /-- To compile the staged model. -/
  | compile (o : CompileOptions)
  /-- To run the artifact on a staged input. -/
  | infer (case : String) (o : InferOptions)

/-- One task, the format that tensors are staged in at the time and the journal. -/
structure Turn where
  /-- The format. -/
  format : DatasetFormat
  /-- The journal. -/
  journal : Journal
  /-- The task. -/
  task : Task

namespace Site

variable {σ : Type} {w : Site σ} {t : Turn} {b : Bench σ}

/-- The area that a turn works in. -/
def area (w : Site σ) (t : Turn) : Area := ⟨w.root, t.format⟩

/-- Takes a turn. A compilation gives the digest of its artifact. -/
def perform (w : Site σ) (t : Turn) : Action (Bench σ) (Option String) :=
  match t.task with
  | .clear => do
    let _ ← ((w.area t).clear t.journal).onBench
    return none
  | .saveModel source => do
    let _ ← ((w.area t).saveModel t.journal source).onBench
    return none
  | .saveTensor case role tensor => do
    let _ ← ((w.area t).saveTensor t.journal case role tensor).onBench
    return none
  | .recordExternal case role kind => do
    let _ ← ((w.area t).recordExternal case role kind).onBench
    return none
  | .compile o => do
    let compiled ← (w.area t).compile t.journal w.launcher w.tools.compiler o
    return some compiled.sha256
  | .infer case o => do
    let _ ← (w.area t).infer t.journal w.launcher w.tools.runtime case o
    return none

/-- The bench after one turn. -/
def step (w : Site σ) (b : Bench σ) (t : Turn) : Bench σ := ((w.perform t).run b).2

/-- The bench after a run of turns. -/
def after (w : Site σ) (b : Bench σ) (turns : List Turn) : Bench σ := turns.foldl w.step b

theorem after_nil (w : Site σ) (b : Bench σ) : w.after b [] = b := rfl

theorem after_cons (w : Site σ) (b : Bench σ) (t : Turn) (turns : List Turn) :
    w.after b (t :: turns) = w.after (w.step b t) turns := rfl

theorem after_append (w : Site σ) (b : Bench σ) (turns later : List Turn) :
    w.after b (turns ++ later) = w.after (w.after b turns) later := List.foldl_append

/-- No turn of a run does something. -/
def Never (w : Site σ) (does : Turn → Bench σ → Prop) (b : Bench σ) (turns : List Turn) : Prop :=
  ∀ before turn, before ++ [turn] <+: turns → ¬ does turn (w.after b before)

theorem never_nil (w : Site σ) (does : Turn → Bench σ → Prop) (b : Bench σ) :
    w.Never does b [] := by
  intro before turn h
  have hlength := h.length_le
  simp at hlength

theorem Never.cons {does : Turn → Bench σ → Prop} {later : List Turn} (h : ¬ does t b)
    (hlater : w.Never does (w.step b t) later) : w.Never does b (t :: later) := by
  intro before turn hp
  cases before with
  | nil =>
    obtain ⟨rfl, -⟩ := List.cons_prefix_cons.mp hp
    exact h
  | cons first before =>
    obtain ⟨rfl, hrest⟩ := List.cons_prefix_cons.mp hp
    exact hlater before turn hrest

/-- The last turn of a run that does something, and what is around it. -/
structure Last (w : Site σ) (does : Turn → Bench σ → Prop) (b : Bench σ)
    (turns earlier : List Turn) (c : Turn) (later : List Turn) : Prop where
  /-- Where it is. -/
  split : turns = earlier ++ c :: later
  /-- It does so. -/
  holds : does c (w.after b earlier)
  /-- No later turn does. -/
  never : w.Never does (w.after b (earlier ++ [c])) later

theorem Last.cons {does : Turn → Bench σ → Prop} {turns earlier later : List Turn} {c : Turn}
    (h : w.Last does (w.step b t) turns earlier c later) :
    w.Last does b (t :: turns) (t :: earlier) c later where
  split := by rw [h.split, List.cons_append]
  holds := h.holds
  never := h.never

/-! ## Turns one by one -/

theorem step_clear (h : t.task = .clear) (b : Bench σ) :
    ∃ bare, t.journal.Closes "clear" ((w.area t).reset.run b.files) bare ∧
      w.step b t = { b with files := bare.2 } := by
  refine ⟨_, (w.area t).clear_closes t.journal b.files, ?_⟩
  rw [step, perform, h, run_bind_pure]
  rfl

theorem step_saveModel {source : ModelSource} (h : t.task = .saveModel source) (b : Bench σ) :
    t.journal.Closes "save_model" (((w.area t).stageModel source).run b.files)
        (((w.area t).saveModel t.journal source).run b.files) ∧
      (w.perform t).run b =
        ((((w.area t).saveModel t.journal source).run b.files).1.map fun _ => none,
        { b with files := (((w.area t).saveModel t.journal source).run b.files).2 }) := by
  refine ⟨(w.area t).saveModel_closes t.journal source b.files, ?_⟩
  rw [perform, h, run_bind_pure]
  rfl

theorem step_saveTensor {case : String} {role : Role} {tensor : Tensor}
    (h : t.task = .saveTensor case role tensor) (b : Bench σ) :
    ∃ logged,
      t.journal.Closes "stage" (((w.area t).stageTensor case role tensor).run b.files) logged ∧
      w.step b t = { b with files := logged.2 } := by
  refine ⟨_, (w.area t).saveTensor_closes t.journal case role tensor b.files, ?_⟩
  rw [step, perform, h, run_bind_pure]
  rfl

theorem step_recordExternal {case : String} {role : Role} {kind : ElementType}
    (h : t.task = .recordExternal case role kind) (b : Bench σ) :
    w.step b t =
      { b with files := (((w.area t).recordExternal case role kind).run b.files).2 } := by
  rw [step, perform, h, run_bind_pure]
  rfl

theorem step_compile {o : CompileOptions} (h : t.task = .compile o) (b : Bench σ) :
    t.journal.ClosesOnBench "compile"
        (((w.area t).compileStaged w.launcher w.tools.compiler o).run b)
        (((w.area t).compile t.journal w.launcher w.tools.compiler o).run b) ∧
      (w.perform t).run b =
        ((((w.area t).compile t.journal w.launcher w.tools.compiler o).run b).1.map
          (some ·.sha256),
        (((w.area t).compile t.journal w.launcher w.tools.compiler o).run b).2) := by
  refine ⟨(w.area t).compile_closes t.journal w.launcher w.tools.compiler o b, ?_⟩
  rw [perform, h, run_bind_pure]

theorem step_infer {case : String} {o : InferOptions} (h : t.task = .infer case o)
    (b : Bench σ) :
    t.journal.ClosesOnBench "infer"
        (((w.area t).inferStaged w.launcher w.tools.runtime case o).run b)
        (((w.area t).infer t.journal w.launcher w.tools.runtime case o).run b) ∧
      (w.perform t).run b =
        ((((w.area t).infer t.journal w.launcher w.tools.runtime case o).run b).1.map fun _ => none,
        (((w.area t).infer t.journal w.launcher w.tools.runtime case o).run b).2) := by
  refine ⟨(w.area t).infer_closes t.journal w.launcher w.tools.runtime case o b, ?_⟩
  rw [perform, h, run_bind_pure]

/-! ## All turns -/

/-- The bench that a turn leaves, but for the line in its journal. -/
inductive Taken (w : Site σ) (t : Turn) (b : Bench σ) : Bench σ → Prop where
  /-- The directory is cleared. -/
  | clear (ht : t.task = .clear) :
      Taken w t b { b with files := ((w.area t).reset.run b.files).2 }
  /-- A model is staged. -/
  | saveModel (source : ModelSource) (ht : t.task = .saveModel source) :
      Taken w t b { b with files := (((w.area t).stageModel source).run b.files).2 }
  /-- A tensor is staged. -/
  | saveTensor (case : String) (role : Role) (tensor : Tensor)
      (ht : t.task = .saveTensor case role tensor) :
      Taken w t b { b with files := (((w.area t).stageTensor case role tensor).run b.files).2 }
  /-- A tensor is recorded. -/
  | recordExternal (case : String) (role : Role) (kind : ElementType)
      (ht : t.task = .recordExternal case role kind) :
      Taken w t b { b with files := (((w.area t).recordExternal case role kind).run b.files).2 }
  /-- The model is compiled. -/
  | compile (o : CompileOptions) (ht : t.task = .compile o) :
      Taken w t b (((w.area t).compileStaged w.launcher w.tools.compiler o).run b).2
  /-- The artifact is run. -/
  | infer (case : String) (o : InferOptions) (ht : t.task = .infer case o) :
      Taken w t b (((w.area t).inferStaged w.launcher w.tools.runtime case o).run b).2

/-- A turn does what its task asks for, and adds a line to its journal at most. -/
theorem step_taken (w : Site σ) (t : Turn) (b : Bench σ) :
    ∃ bare, w.Taken t b bare ∧ t.journal.Logged bare (w.step b t) := by
  cases ht : t.task with
  | clear =>
    obtain ⟨logged, hcloses, hstep⟩ := step_clear (w := w) ht b
    rw [hstep]
    exact ⟨_, .clear ht, hcloses.logged b⟩
  | saveModel source =>
    obtain ⟨hcloses, hperform⟩ := step_saveModel (w := w) ht b
    rw [step, hperform]
    exact ⟨_, .saveModel source ht, hcloses.logged b⟩
  | saveTensor case role tensor =>
    obtain ⟨logged, hcloses, hstep⟩ := step_saveTensor (w := w) ht b
    rw [hstep]
    exact ⟨_, .saveTensor case role tensor ht, hcloses.logged b⟩
  | recordExternal case role kind =>
    rw [step_recordExternal ht b]
    exact ⟨_, .recordExternal case role kind ht, .refl _ _⟩
  | compile o =>
    obtain ⟨hcloses, hrun⟩ := step_compile (w := w) ht b
    rw [step, hrun]
    exact ⟨_, .compile o ht, hcloses.logged⟩
  | infer case o =>
    obtain ⟨hcloses, hrun⟩ := step_infer (w := w) ht b
    rw [step, hrun]
    exact ⟨_, .infer case o ht, hcloses.logged⟩

/-- A turn that asks for no tool launches none. -/
theorem step_unlaunched (hcompile : ∀ o, t.task ≠ .compile o)
    (hinfer : ∀ case o, t.task ≠ .infer case o) (b : Bench σ) :
    (w.step b t).tools = b.tools ∧ (w.step b t).ledger = b.ledger := by
  obtain ⟨bare, htaken, hlogged⟩ := w.step_taken t b
  rw [hlogged.tools, hlogged.ledger]
  cases htaken with
  | clear _ | saveModel _ _ | saveTensor _ _ _ _ | recordExternal _ _ _ _ => exact ⟨rfl, rfl⟩
  | compile o ht => exact absurd ht (hcompile o)
  | infer case o ht => exact absurd ht (hinfer case o)

/-! ## What a turn leaves alone -/

/-- The places where a task may change files. -/
def TaskPlaces (a : Area) : Task → Location → Prop
  | .clear => fun _ => False
  | .saveModel source => a.EntryPlaces (a.modelPath source)
  | .saveTensor case role _ => a.EntryPlaces (a.tensorPath case role)
  | .recordExternal .. => (· = a.manifestSpot)
  | .compile _ => (· = a.artifactSpot)
  | .infer case _ => a.InferPlaces case

/-- The places where a turn may change files, but for what clearing takes away. -/
def Places (w : Site σ) (t : Turn) (loc : Location) : Prop :=
  t.journal.IsAt loc ∨ TaskPlaces (w.area t) t.task loc

/-- Neither the journal nor the model of a turn is at a place. -/
structure Avoids (w : Site σ) (spot : Location) (t : Turn) : Prop where
  /-- The journal is elsewhere. -/
  journal : ¬ t.journal.IsAt spot
  /-- The model is elsewhere. -/
  model : ∀ source, t.task = .saveModel source →
    location ((w.area t).modelPath source) ≠ spot

/-- A task that does not clear changes files at its places only, and keeps directories. -/
theorem Taken.spares {bare : Bench σ} (h : w.Taken t b bare)
    (hl : w.launcher.KeepsTo w.tools w.root) (ht : t.task ≠ .clear) :
    b.files.Spares (TaskPlaces (w.area t) t.task) bare.files := by
  cases h with
  | clear hclear => exact absurd hclear ht
  | saveModel source htask =>
    rw [htask]
    exact (w.area t).stageModel_spares source b.files
  | saveTensor case role tensor htask =>
    rw [htask]
    exact (w.area t).stageTensor_spares case role tensor b.files
  | recordExternal case role kind htask =>
    rw [htask]
    exact (w.area t).recordExternal_spares case role kind b.files
  | compile o htask =>
    rw [htask]
    exact ((w.area t).compileStaged_ends w.launcher w.tools.compiler o b).spares hl
  | infer case o htask =>
    rw [htask]
    exact ((w.area t).inferStaged_ends w.launcher w.tools.runtime case o b).spares hl

/-- A turn that does not clear changes files at its places only, and keeps directories. -/
theorem step_spares (hl : w.launcher.KeepsTo w.tools w.root) (ht : t.task ≠ .clear)
    (b : Bench σ) : b.files.Spares (w.Places t) (w.step b t).files := by
  obtain ⟨bare, htaken, hlogged⟩ := w.step_taken t b
  have htask : b.files.Spares (w.Places t) bare.files :=
    (htaken.spares hl ht).mono fun _ => Or.inr
  exact htask.trans (hlogged.spares.mono fun _ => Or.inl)

/-- A file that is found after a turn at none of its places was there before. -/
theorem step_old (hl : w.launcher.KeepsTo w.tools w.root) {loc : Location}
    (hloc : ¬ w.Places t loc) {bytes : Bytes}
    (hf : (w.step b t).files.get? loc = some (.file bytes)) :
    b.files.get? loc = some (.file bytes) := by
  by_cases ht : t.task = .clear
  · obtain ⟨bare, hcloses, hstep⟩ := step_clear (w := w) ht b
    rw [hstep] at hf
    have hj : ¬ t.journal.IsAt loc := fun hx => hloc (Or.inl hx)
    exact Area.reset_old ((hcloses.spares.file loc hj bytes).mp hf)
  · exact ((step_spares hl ht b).file loc hloc bytes).mp hf

/-! ## A rehearsed site -/

/-- A site whose tools are rehearsed. -/
def rehearsal : Site (List Answer) := ⟨"w", ⟨⟨"ncc", []⟩, ⟨"ncc", []⟩⟩, .rehearsed⟩

theorem rehearsal_keepsTo : rehearsal.launcher.KeepsTo rehearsal.tools rehearsal.root :=
  Launcher.rehearsed_keepsTo rfl rfl "w"

/-- The number one, alone in a tensor. -/
def one : Tensor := ⟨[1], .f32 [⟨0x3f800000⟩]⟩

/-- A turn on raw files without a journal. -/
def quietly (task : Task) : Turn := ⟨.raw, {}, task⟩

/-- A model and an input are staged. -/
def staging : List Turn :=
  [.clear, .saveModel ⟨⟨[1], .f32⟩, .graph, .ok []⟩, .saveTensor "case" .input one].map quietly

theorem quietly_avoids {spot : Location} {task : Task}
    (h : ∀ source, task = .saveModel source →
      location ((rehearsal.area (quietly task)).modelPath source) ≠ spot) :
    rehearsal.Avoids spot (quietly task) where
  journal := by
    rintro ⟨path, hpath, -⟩
    cases hpath
  model := h

/-- Nothing is there yet, and answers wait. -/
def fresh (answers : List Answer) : Bench (List Answer) := ⟨.empty, answers, []⟩

end Site

end NetTrial
