import NetTrial.Proofs.Leftovers
/-!
# The lines of a journal

A journal that can be continued gets one line for each step, and nothing else of the files changes.
How an action is told by its lines is put together from its parts: one after the other, up to the
first that fails.
-/

namespace NetTrial

open NetTrial.Path Text NetTrial.Action

/-! ## The file -/

namespace Files

variable {fs fs' : Files} {path : String} {loc : Location}

/-- What the file at a path holds; nothing if no file is there. -/
def held (fs : Files) (path : String) : Bytes :=
  match fs.get? (location path) with
  | some (.file bytes) => bytes
  | _ => []

/-- The file at a path is there and can be continued. -/
structure Open (fs : Files) (path : String) : Prop where
  /-- The directory above stands. -/
  parent : ∀ up, parent? path = some up → fs.Stands up
  /-- The path names an entry. -/
  entry : ∃ directory name, fs.Entry path directory name
  /-- The path is not spelled as that of a directory. -/
  plain : endsWith "/" path = false
  /-- A file is there. -/
  file : ∃ bytes, fs.get? (location path) = some (.file bytes)

theorem held_of_file {bytes : Bytes} (h : fs.get? (location path) = some (.file bytes)) :
    fs.held path = bytes := by
  rw [held, h]

theorem held_congr (h : fs'.get? (location path) = fs.get? (location path)) :
    fs'.held path = fs.held path := by
  rw [held, h, held]

/-- Directories that are made hold nothing. -/
theorem Grows.held {spots : Location → Prop} (h : fs.Grows spots fs') (path : String) :
    fs'.held path = fs.held path := by
  by_cases hn : fs.get? (location path) = none
  · rcases h.fresh _ hn with hn' | ⟨-, hd⟩
    · rw [Files.held, Files.held, hn, hn']
    · rw [Files.held, Files.held, hn, hd]
  · exact held_congr (h.kept _ hn)

/-- A file stays open while it is left alone and no directory is lost. -/
theorem Open.mono (h : fs.Open path)
    (hd : ∀ loc, fs.isDirectoryAt loc = true → fs'.isDirectoryAt loc = true)
    (hf : fs'.get? (location path) = fs.get? (location path)) : fs'.Open path := by
  obtain ⟨directory, name, he⟩ := h.entry
  refine ⟨fun up hup => (h.parent up hup).mono hd, ⟨directory, name, he.mono hd⟩, h.plain, ?_⟩
  rw [hf]
  exact h.file

/-- What is changed in a directory does not close a file outside of it. -/
theorem Within.open {root : String} (h : fs.Within root fs') (hout : Outside root (location path))
    (ho : fs.Open path) : fs'.Open path :=
  ho.mono h.directory (h.elsewhere _ hout)

theorem Within.held {root : String} (h : fs.Within root fs') (hout : Outside root (location path)) :
    fs'.held path = fs.held path := held_congr (h.elsewhere _ hout)

theorem Open.writable (h : fs.Open path) :
    fs.writable path = .ok (location path, some (fs.held path)) := by
  obtain ⟨directory, name, he⟩ := h.entry
  obtain ⟨bytes, hf⟩ := h.file
  rw [held_of_file hf, Files.writable, he.target, h.plain]
  rw [← he.location_eq] at hf ⊢
  simp only [bind, Except.bind, hf]
  rfl

end Files

namespace Journal

variable {σ α β : Type} {j : Journal} {path : String} {fs fs' : Files}

/-- The bytes of a line. -/
def Line.bytes (line : Line) : Bytes := line.toJson.compactBytes ++ encodeChars ['\n']

end Journal

/-! ## What is written in a run -/

/-- A file that lines are written to, who is launched meanwhile and for which requests, and which
failures no line tells. -/
structure Chronicle (σ : Type) where
  /-- The path of the file. -/
  path : String
  /-- The launcher. -/
  launcher : Launcher σ
  /-- What is launched, and on which files. -/
  asked : Request → Files → Prop
  /-- The failures without a line. -/
  untold : Failure → Prop

/-- Lines of steps that passed, and the names of these steps. -/
structure Passing (names : List String) (lines : List Journal.Line) : Prop where
  /-- The steps have these names. -/
  steps : lines.map (·.step) = names
  /-- All of them passed. -/
  pass : ∀ line ∈ lines, line.failure = none

theorem Passing.append {names names' : List String} {lines more : List Journal.Line}
    (h : Passing names lines) (h' : Passing names' more) :
    Passing (names ++ names') (lines ++ more) := by
  refine ⟨by rw [List.map_append, h.steps, h'.steps], fun line hline => ?_⟩
  exact (List.mem_append.mp hline).elim (h.pass line) (h'.pass line)

namespace Chronicle

variable {σ α β : Type} {c : Chronicle σ} {fs fs' before after : Files} {t t' u : σ}
  {lines front : List Journal.Line} {line : Journal.Line} {names names' : List String}
  {cause : Failure}

/-- What comes of files and of the state of the launcher while lines are put behind what the file
holds. Other changes leave the file as it is, but a launch may do anything. -/
inductive Writes (c : Chronicle σ) (fs : Files) (t : σ) :
    List Journal.Line → Files → σ → Prop where
  /-- Nothing has happened. -/
  | start : Writes c fs t [] fs t
  /-- A line is put behind what the file holds. -/
  | line {lines : List Journal.Line} {line : Journal.Line} {before after : Files} {u : σ} :
      Writes c fs t lines before u →
      after.held c.path = before.held c.path ++ line.bytes →
      Writes c fs t (lines ++ [line]) after u
  /-- Something else is changed. -/
  | apart {lines : List Journal.Line} {before after : Files} {u : σ} :
      Writes c fs t lines before u → after.held c.path = before.held c.path →
      Writes c fs t lines after u
  /-- A tool is launched. -/
  | launched {lines : List Journal.Line} {before : Files} {u : σ} {request : Request} :
      Writes c fs t lines before u → c.asked request before →
      Writes c fs t lines (c.launcher.launch request before u).2.1
        (c.launcher.launch request before u).2.2

theorem Writes.trans {more : List Journal.Line} (h : c.Writes fs t lines before u)
    (h' : c.Writes before u more after t') : c.Writes fs t (lines ++ more) after t' := by
  induction h' with
  | start =>
    rw [List.append_nil]
    exact h
  | line _ hheld ih =>
    rw [← List.append_assoc]
    exact ih.line hheld
  | apart _ hheld ih => exact ih.apart hheld
  | launched _ hasked ih => exact ih.launched hasked

/-- If no launch changes what the file holds, the lines are all that is put behind it. -/
theorem Writes.held (h : c.Writes fs t lines after u)
    (hl : ∀ request fs t, c.asked request fs →
      (c.launcher.launch request fs t).2.1.held c.path = fs.held c.path) :
    after.held c.path = fs.held c.path ++ lines.flatMap Journal.Line.bytes := by
  induction h with
  | start => rw [List.flatMap_nil, List.append_nil]
  | line _ hheld ih =>
    rw [hheld, ih, List.flatMap_append, List.flatMap_singleton, List.append_assoc]
  | apart _ hheld ih => rw [hheld, ih]
  | launched _ hasked ih => rw [hl _ _ _ hasked, ih]

/-! ## Telling how it ends -/

/-- Lines that go with a failure: the last one tells it, or all steps passed and there is no line
for it. -/
inductive Failing (c : Chronicle σ) (names : List String) (cause : Failure) :
    List Journal.Line → Prop where
  /-- The last line tells the failure. -/
  | told {front : List Journal.Line} {line : Journal.Line} :
      (front ++ [line]).map (·.step) <+: names → (∀ passed ∈ front, passed.failure = none) →
      line.failure = some cause → Failing c names cause (front ++ [line])
  /-- No line tells the failure. -/
  | untold {lines : List Journal.Line} : lines.map (·.step) <+: names →
      (∀ passed ∈ lines, passed.failure = none) → c.untold cause → Failing c names cause lines

theorem Failing.mono (h : c.Failing names cause lines) (more : List String) :
    c.Failing (names ++ more) cause lines := by
  cases h with
  | told hsteps hpass hline => exact .told (hsteps.trans (List.prefix_append _ _)) hpass hline
  | untold hsteps hpass huntold =>
    exact .untold (hsteps.trans (List.prefix_append _ _)) hpass huntold

/-- A failure after steps that passed. -/
theorem Failing.follows (h : c.Failing names' cause lines) (hp : Passing names front) :
    c.Failing (names ++ names') cause (front ++ lines) := by
  cases h with
  | @told passed line hsteps hpass hline =>
    rw [← List.append_assoc]
    refine .told ?_ (fun l hl => (List.mem_append.mp hl).elim (hp.pass l) (hpass l)) hline
    rw [List.append_assoc, List.map_append, hp.steps]
    exact (List.prefix_append_right_inj _).mpr hsteps
  | untold hsteps hpass huntold =>
    refine .untold ?_ (fun l hl => (List.mem_append.mp hl).elim (hp.pass l) (hpass l)) huntold
    rw [List.map_append, hp.steps]
    exact (List.prefix_append_right_inj _).mpr hsteps

/-- An action is told by lines for some steps: all of them when it succeeds, and those up to its
failure when it fails. -/
def Recounts (c : Chronicle σ) (names : List String) (act : Action (Bench σ) α) (b : Bench σ)
    (done : α → Bench σ → Prop) : Prop :=
  act.Ends b
    (fun cause b' => ∃ lines, c.Failing names cause lines ∧
      c.Writes b.files b.tools lines b'.files b'.tools)
    fun value b' => done value b' ∧ ∃ lines, Passing names lines ∧
      c.Writes b.files b.tools lines b'.files b'.tools

variable {b b' : Bench σ} {act : Action (Bench σ) α} {next : α → Action (Bench σ) β}
  {done : α → Bench σ → Prop} {finished : β → Bench σ → Prop}

theorem Recounts.mono {done' : α → Bench σ → Prop} (h : c.Recounts names act b done)
    (hd : ∀ value b', done value b' → done' value b') : c.Recounts names act b done' :=
  Ends.mono h (fun _ _ hf => hf) fun value b' hp => ⟨hd value b' hp.1, hp.2⟩

/-- A sequence is told by the lines of its parts. -/
theorem Recounts.bind (h : c.Recounts names act b fun value b' =>
      c.Recounts names' (next value) b' finished) :
    c.Recounts (names ++ names') (act >>= next) b finished := by
  refine Ends.bind (Ends.mono h ?_ ?_)
  · rintro cause b' ⟨lines, hfailing, hwrites⟩
    exact ⟨lines, hfailing.mono names', hwrites⟩
  · rintro value b' ⟨hnext, front, hpassing, hwrites⟩
    refine Ends.mono hnext ?_ ?_
    · rintro cause b'' ⟨lines, hfailing, hwrites'⟩
      exact ⟨front ++ lines, hfailing.follows hpassing, hwrites.trans hwrites'⟩
    · rintro result b'' ⟨hfinished, lines, hpassing', hwrites'⟩
      exact ⟨hfinished, front ++ lines, hpassing.append hpassing', hwrites.trans hwrites'⟩

theorem recounts_of_run {value : α} (h : act.run b = (.ok value, b)) (hd : done value b) :
    c.Recounts [] act b done :=
  ends_ok h ⟨hd, [], ⟨rfl, fun _ hl => nomatch hl⟩, .start⟩

theorem Recounts.bind_pure {f : α → β} (h : c.Recounts names act b fun value =>
      finished (f value)) : c.Recounts names (act >>= fun value => pure (f value)) b finished := by
  have hpure : c.Recounts names act b fun value b' =>
      c.Recounts [] (pure (f value)) b' finished :=
    h.mono fun value b' hd => recounts_of_run rfl hd
  have hbind := hpure.bind
  rwa [List.append_nil] at hbind

end Chronicle

namespace Journal

variable {σ α : Type} {j : Journal} {c : Chronicle σ} {b : Bench σ} {name : String}

theorem Closes.onBench {bare logged : Action Files α}
    (h : j.Closes name (bare.run b.files) (logged.run b.files)) :
    j.ClosesOnBench name ((bare.onBench : Action (Bench σ) α).run b) (logged.onBench.run b) := by
  obtain ⟨line, htells, hl⟩ := h
  refine ⟨line, htells, ?_⟩
  rw [run_onBench, run_onBench, hl]

end Journal

end NetTrial
