import Mathlib.Data.List.Forall2
import NetTrial.Proofs.Artifacts
import NetTrial.Proofs.Readiness
/-!
# Launches of a session

A call that asks for a tool launches it once or not at all. It is launched where all is in order
for it, and what comes of it is put on the ledger; a call that fails has changed its own output
at most, and one that launched nothing has written nothing. So all along a session the ledger is
the list of what was launched, whatever else is staged in between. It rests on a manifest that
records the area's own files, and staging keeps it so unless a model is put in its place.
-/

namespace NetTrial

open NetTrial.Path Text NetTrial.Action

variable {σ α β : Type}

/-! ## One call -/

namespace Launcher

/-- How a call launches its tool. -/
structure Conducts (l : Launcher σ) (ready : Sighting → Prop) (output : Location) (b : Bench σ)
    (ended : Except Failure α) (b' : Bench σ) (launches : List Sighting) : Prop where
  /-- There is one launch at most. -/
  few : launches.length ≤ 1
  /-- It is what the launcher sees. -/
  seen : ∀ seen, l.Sees seen → seen b'.tools = seen b.tools ++ launches
  /-- It is what is put on the ledger. -/
  ledger : ∃ events, b'.ledger = b.ledger ++ events ∧ List.Forall₂ Event.Tells events launches
  /-- All is in order for it. -/
  ready : ∀ s ∈ launches, ready s
  /-- A call that succeeds has launched its tool. -/
  done : ∀ value, ended = .ok value → launches ≠ []
  /-- A call that fails has changed the output of its tool at most. -/
  failed : ∀ e, ended = .error e → b.files.Touches output b'.files
  /-- A call that has launched nothing leaves the launcher and has written nothing. -/
  idle : launches = [] → b'.tools = b.tools ∧ b.files.Shrinks b'.files

variable {l : Launcher σ} {ready : Sighting → Prop} {output : Location} {b b' : Bench σ}
  {ended : Except Failure α} {launches : List Sighting}

theorem Conducts.map (h : l.Conducts ready output b ended b' launches) (f : α → β) :
    l.Conducts ready output b (ended.map f) b' launches := by
  refine ⟨h.few, h.seen, h.ledger, h.ready, fun value hv => ?_, fun e he => ?_, h.idle⟩
  · cases ended with
    | ok found => exact h.done found rfl
    | error e => cases hv
  · cases ended with
    | ok found => cases he
    | error e' => exact h.failed e' rfl

/-- A call fails before its tool is launched. -/
theorem conducts_idle {fs : Files} (ht : b.files.Touches output fs) (hs : b.files.Shrinks fs)
    (e : Failure) :
    l.Conducts ready output b (.error e : Except Failure α) { b with files := fs } [] where
  few := Nat.zero_le 1
  seen _ _ := (List.append_nil _).symm
  ledger := ⟨[], (List.append_nil _).symm, .nil⟩
  ready := nofun
  done := nofun
  failed _ _ := ht
  idle _ := ⟨rfl, hs⟩

/-- A call launches its tool, and may change files after that. -/
theorem conducts_launch {request : Request} {note : String} {fs fs' : Files}
    (hready : ready ⟨request, fs, (l.launch request fs b.tools).1⟩)
    (hfailed : ∀ e, ended = .error e → b.files.Touches output fs') :
    l.Conducts ready output b ended
      { (Bench.launch l request note { b with files := fs }).2 with files := fs' }
      [⟨request, fs, (l.launch request fs b.tools).1⟩] where
  few := Nat.le_refl 1
  seen _ hseen := hseen request fs b.tools
  ledger := ⟨_, rfl, .cons rfl .nil⟩
  ready s hs := by
    rw [List.mem_singleton.mp hs]
    exact hready
  done _ _ := List.cons_ne_nil _ _
  failed := hfailed
  idle h := absurd h (List.cons_ne_nil _ _)

end Launcher

namespace Area

variable {a : Area} {l : Launcher σ} {tools : Toolchain} {b b' : Bench σ}

theorem Compiling.conducts {o : CompileOptions} {r : Except Failure Compiled}
    (h : a.Compiling l tools.compiler o b r b') (hl : l.KeepsTo tools a.root)
    (horderly : a.Orderly b.files)
    (hdata : ∀ path, o.dataset = some path → location path ≠ a.artifactSpot) :
    ∃ launches, l.Conducts (fun s => ∃ m model, a.CompileReady tools.compiler o m model s)
      a.artifactSpot b r b' launches := by
  cases h with
  | refused => exact ⟨[], Launcher.conducts_idle (.refl _ _) (.refl _) _⟩
  | unread hp =>
    have hfrees := ((a.prepareCompile_ends _ o _).of_ok hp).2.2.2.1
    exact ⟨[], Launcher.conducts_idle hfrees.touches hfrees.shrinks _⟩
  | failed hp =>
    have hfrees := ((a.prepareCompile_ends _ o _).of_ok hp).2.2.2.1
    exact ⟨_, Launcher.conducts_launch (prepareCompile_ready horderly hdata hp _) fun _ _ =>
      hfrees.touches.trans (hl.compiler b.tools rfl hp)⟩
  | made hp _ _ =>
    exact ⟨_, Launcher.conducts_launch (prepareCompile_ready horderly hdata hp _) nofun⟩

theorem Inferring.conducts {case : String} {o : InferOptions} {r : Except Failure String}
    (h : a.Inferring l tools.runtime case o b r b') (hl : l.KeepsTo tools a.root)
    (horderly : a.Orderly b.files) :
    ∃ launches, l.Conducts (fun s => ∃ m, a.InferReady tools.runtime case o m s)
      (a.candidateSpot case) b r b' launches := by
  cases h with
  | refused => exact ⟨[], Launcher.conducts_idle (.refl _ _) (.refl _) _⟩
  | unread hp =>
    obtain ⟨hfrees, -⟩ := prepareInfer_ready horderly hp
    exact ⟨[], Launcher.conducts_idle hfrees.touches hfrees.shrinks _⟩
  | failed hp _ | unrecorded hp _ =>
    obtain ⟨hfrees, hready⟩ := prepareInfer_ready horderly hp
    exact ⟨_, Launcher.conducts_launch (hready _) fun _ _ =>
      hfrees.touches.trans (hl.runtime b.tools rfl hp)⟩
  | recorded hp _ _ =>
    obtain ⟨-, hready⟩ := prepareInfer_ready horderly hp
    exact ⟨_, Launcher.conducts_launch (hready _) nofun⟩

theorem Compiling.orderly {o : CompileOptions} {r : Except Failure Compiled}
    (h : a.Compiling l tools.compiler o b r b') (hl : l.KeepsTo tools a.root)
    (horderly : a.Orderly b.files) : a.Orderly b'.files :=
  horderly.of_spares (h.spares hl) a.artifactSpot_ne_manifestSpot.symm

theorem Inferring.orderly {case : String} {o : InferOptions} {r : Except Failure String}
    (h : a.Inferring l tools.runtime case o b r b') (hl : l.KeepsTo tools a.root)
    (horderly : a.Orderly b.files) : a.Orderly b'.files := by
  have hspot := (a.candidateSpot_ne_manifestSpot case).symm
  cases r with
  | error e => exact horderly.of_spares (h.spares_of_error hl) hspot
  | ok path =>
    cases h with
    | @recorded request fs _ _ hp _ hr =>
      have hspares := ((a.prepareInfer_ends _ case o _).of_ok hp).2.2.2.1.1.trans
        (hl.runtime b.tools rfl hp).spares
      have hrecorded : a.Orderly ((a.recordExternal case .candidate .f32).run
          (Bench.launch l request case { b with files := fs }).2.files).2 :=
        (horderly.of_spares hspares hspot).recordExternal case .candidate .f32
      rw [hr] at hrecorded
      exact hrecorded

/-- Clearing an area whose manifest it takes away leaves it in order, success or not. -/
theorem reset_orderly {fs : Files} (h : a.Leads fs ∨ fs.get? a.manifestSpot = none) :
    a.Orderly (a.reset.run fs).2 := by
  rintro m ⟨bytes, -, hg, -⟩
  rcases h with hleads | hnone
  · have hc := (Files.locate_eq_ok.mp hleads).1
    exact absurd hg (reset_no_file ((Files.stands_iff_locate hc).mpr hleads) hc
      a.isBelow_manifestSpot bytes)
  · rw [reset_old hg] at hnone
    cases hnone

end Area

/-! ## Turns -/

/-- A turn in the format of an area and without a journal, whose model is neither the manifest
nor the artifact and whose calibration data is not the artifact. -/
structure Turn.Proper (a : Area) (t : Turn) : Prop where
  /-- The format is that of the area. -/
  format : t.format = a.format
  /-- No journal is kept. -/
  silent : t.journal.path = none
  /-- No model is put in place of the manifest. -/
  manifest : ∀ source, t.task = .saveModel source →
    location (a.modelPath source) ≠ a.manifestSpot
  /-- No model is put in place of the artifact. -/
  artifact : ∀ source, t.task = .saveModel source →
    location (a.modelPath source) ≠ a.artifactSpot
  /-- The calibration data is not the artifact. -/
  dataset : ∀ o path, t.task = .compile o → o.dataset = some path →
    location path ≠ a.artifactSpot

namespace Site

variable {w : Site σ} {t : Turn} {b : Bench σ}

/-- How a turn launches tools: compiling and inferring launch their own, all else none. -/
def Conducts (w : Site σ) (t : Turn) (b : Bench σ) (launches : List Sighting) : Prop :=
  match t.task with
  | .compile o =>
    w.launcher.Conducts (fun s => ∃ m model, (w.area t).CompileReady w.tools.compiler o m model s)
      (w.area t).artifactSpot b ((w.perform t).run b).1 (w.step b t) launches
  | .infer case o =>
    w.launcher.Conducts (fun s => ∃ m, (w.area t).InferReady w.tools.runtime case o m s)
      ((w.area t).candidateSpot case) b ((w.perform t).run b).1 (w.step b t) launches
  | _ => launches = [] ∧ (w.step b t).tools = b.tools ∧ (w.step b t).ledger = b.ledger

theorem Conducts.seen {launches : List Sighting} (h : w.Conducts t b launches)
    {seen : σ → List Sighting} (hseen : w.launcher.Sees seen) :
    seen (w.step b t).tools = seen b.tools ++ launches := by
  rw [Conducts] at h
  cases ht : t.task with
  | compile o | infer case o =>
    rw [ht] at h
    exact Launcher.Conducts.seen h seen hseen
  | clear | saveModel _ | saveTensor _ _ _ | recordExternal _ _ _ =>
    rw [ht] at h
    obtain ⟨rfl, htools, -⟩ := h
    rw [htools, List.append_nil]

theorem Conducts.ledger {launches : List Sighting} (h : w.Conducts t b launches) :
    ∃ events, (w.step b t).ledger = b.ledger ++ events ∧
      List.Forall₂ Event.Tells events launches := by
  rw [Conducts] at h
  cases ht : t.task with
  | compile o | infer case o =>
    rw [ht] at h
    exact Launcher.Conducts.ledger h
  | clear | saveModel _ | saveTensor _ _ _ | recordExternal _ _ _ =>
    rw [ht] at h
    obtain ⟨rfl, -, hledger⟩ := h
    exact ⟨[], by rw [hledger, List.append_nil], .nil⟩

/-- A turn takes place in an area that is in order, and launches its tool as it should. -/
theorem step_conducts (hl : w.launcher.KeepsTo w.tools w.root) (ht : t.Proper (w.area t))
    (horderly : t.task ≠ .clear → (w.area t).Orderly b.files) :
    ∃ launches, w.Conducts t b launches := by
  unfold Conducts
  cases htask : t.task with
  | clear | saveModel _ | saveTensor _ _ _ | recordExternal _ _ _ =>
    exact ⟨[], rfl, step_unlaunched (by simp [htask]) (by simp [htask]) b⟩
  | compile o =>
    obtain ⟨hcloses, hrun⟩ := step_compile (w := w) htask b
    rw [hcloses.silent ht.silent] at hrun
    have hends := (w.area t).compileStaged_ends w.launcher w.tools.compiler o b
    obtain ⟨launches, hconducts⟩ := hends.conducts hl
      (horderly (by simp [htask])) (ht.dataset o · htask)
    rw [step, hrun]
    exact ⟨launches, hconducts.map _⟩
  | infer case o =>
    obtain ⟨hcloses, hrun⟩ := step_infer (w := w) htask b
    rw [hcloses.silent ht.silent] at hrun
    have hends := (w.area t).inferStaged_ends w.launcher w.tools.runtime case o b
    obtain ⟨launches, hconducts⟩ := hends.conducts hl
      (horderly (by simp [htask]))
    rw [step, hrun]
    exact ⟨launches, hconducts.map _⟩

/-- A turn leaves an area in order as it was before. -/
theorem step_orderly (hl : w.launcher.KeepsTo w.tools w.root) (ht : t.Proper (w.area t))
    (horderly : (w.area t).Orderly b.files) : (w.area t).Orderly (w.step b t).files := by
  obtain ⟨bare, htaken, hlogged⟩ := w.step_taken t b
  rw [hlogged.silent ht.silent]
  cases htaken with
  | clear _ => exact horderly.reset
  | saveModel source htask =>
    exact horderly.stageModel (ht.manifest source htask) (ht.artifact source htask)
  | saveTensor case role tensor _ => exact horderly.stageTensor case role tensor
  | recordExternal case role kind _ => exact horderly.recordExternal case role kind
  | compile o _ =>
    exact ((w.area t).compileStaged_ends w.launcher w.tools.compiler o b).orderly hl horderly
  | infer case o _ =>
    exact ((w.area t).inferStaged_ends w.launcher w.tools.runtime case o b).orderly hl horderly

/-! ## Sessions -/

/-- How a run of turns launches tools, turn by turn. -/
inductive Conducted (w : Site σ) : Bench σ → List Turn → List (List Sighting) → Prop where
  /-- Nothing is asked for. -/
  | nil (b : Bench σ) : Conducted w b [] []
  /-- A turn is taken, and then the others. -/
  | cons {b : Bench σ} {t : Turn} {turns : List Turn} {launches : List Sighting}
      {rest : List (List Sighting)} : w.Conducts t b launches →
      Conducted w (w.step b t) turns rest → Conducted w b (t :: turns) (launches :: rest)

theorem Conducted.seen {turns : List Turn} {launches : List (List Sighting)}
    (h : w.Conducted b turns launches) {seen : σ → List Sighting} (hseen : w.launcher.Sees seen) :
    seen (w.after b turns).tools = seen b.tools ++ launches.flatten := by
  induction h with
  | nil b => exact (List.append_nil _).symm
  | cons hturn _ ih => rw [after_cons, ih, hturn.seen hseen, List.flatten_cons, List.append_assoc]

theorem Conducted.ledger {turns : List Turn} {launches : List (List Sighting)}
    (h : w.Conducted b turns launches) : ∃ events, (w.after b turns).ledger = b.ledger ++ events ∧
      List.Forall₂ Event.Tells events launches.flatten := by
  induction h with
  | nil b => exact ⟨[], (List.append_nil _).symm, .nil⟩
  | cons hturn _ ih =>
    obtain ⟨events, hfirst, htells⟩ := hturn.ledger
    obtain ⟨later, hrest, hall⟩ := ih
    refine ⟨events ++ later, ?_, List.rel_append htells hall⟩
    rw [after_cons, hrest, hfirst, List.append_assoc]

/-- From an area in order on, every turn launches its tool as it should. -/
theorem conducted_of_orderly {a : Area} (ha : a.root = w.root)
    (hl : w.launcher.KeepsTo w.tools w.root) {turns : List Turn}
    (hproper : ∀ t ∈ turns, t.Proper a) (h : a.Orderly b.files) :
    ∃ launches, w.Conducted b turns launches := by
  induction turns generalizing b with
  | nil => exact ⟨[], .nil b⟩
  | cons t turns ih =>
    have ht := hproper t List.mem_cons_self
    have harea : w.area t = a := by rw [area, ht.format, ← ha]
    rw [← harea] at ht h
    obtain ⟨launches, hfirst⟩ := step_conducts hl ht fun _ => h
    obtain ⟨rest, hrest⟩ := ih (fun u hu => hproper u (List.mem_cons_of_mem t hu))
      (harea ▸ step_orderly hl ht h)
    exact ⟨launches :: rest, .cons hfirst hrest⟩

/-- From a first clearing on, which finds the root leading to a directory or nothing in place of
the manifest, every turn launches its tool once at most and where all is in order for it, and the
ledger tells all launches in order, as the launcher sees them. -/
theorem after_clear_conducted {a : Area} (ha : a.root = w.root)
    (hl : w.launcher.KeepsTo w.tools w.root) {first : Turn} (hfirst : first.task = .clear)
    (hstart : a.Leads b.files ∨ b.files.get? a.manifestSpot = none) {turns : List Turn}
    (hproper : ∀ t ∈ first :: turns, t.Proper a) :
    ∃ launches, w.Conducted b (first :: turns) launches ∧
      (∀ seen, w.launcher.Sees seen → seen (w.after b (first :: turns)).tools =
        seen b.tools ++ launches.flatten) ∧
      ∃ events, (w.after b (first :: turns)).ledger = b.ledger ++ events ∧
        List.Forall₂ Event.Tells events launches.flatten := by
  have ht := hproper first List.mem_cons_self
  have harea : w.area first = a := by rw [area, ht.format, ← ha]
  have hcleared : a.Orderly (w.step b first).files := by
    obtain ⟨_, hcloses, hstep⟩ := step_clear (w := w) hfirst b
    rw [hstep, hcloses.silent ht.silent, harea]
    exact Area.reset_orderly hstart
  obtain ⟨launches, hfirst'⟩ :=
    step_conducts hl (harea ▸ ht) fun hne => absurd hfirst hne
  obtain ⟨rest, hrest⟩ := conducted_of_orderly ha hl
    (fun t hturn => hproper t (List.mem_cons_of_mem first hturn)) hcleared
  have hall := Conducted.cons hfirst' hrest
  exact ⟨launches :: rest, hall, fun _ hseen => hall.seen hseen, hall.ledger⟩

end Site

/-! ## Sessions that are watched -/

namespace Launcher

/-- A launcher that shows what it is asked. -/
def watched (l : Launcher σ) : Launcher (σ × List Sighting) where
  launch request fs t :=
    let (result, fs', inner) := l.launch request fs t.1
    (result, fs', inner, t.2 ++ [⟨request, fs, result⟩])

theorem watched_sees (l : Launcher σ) : l.watched.Sees Prod.snd := fun _ _ _ => rfl

/-- What is answered is answered when it is watched, and there is one more sighting. -/
theorem Answers.watched {l : Launcher σ} {s : σ} {answer : Answer} {next : σ → Prop}
    (h : l.Answers s answer next) {seen : List Sighting} {count : Nat}
    (hseen : seen.length = count) :
    l.watched.Answers (s, seen) answer fun t => next t.1 ∧ t.2.length = count + 1 := by
  intro request files
  obtain ⟨t, hlaunch, hnext⟩ := h request files
  refine ⟨(t, seen ++ [⟨request, files, .ok ⟨some answer.exitCode, "", ""⟩⟩]), ?_, hnext, ?_⟩
  · simp only [Launcher.watched, hlaunch]
  · rw [List.length_append, hseen]
    rfl

theorem KeepsTo.watched {l : Launcher σ} {tools : Toolchain} {root : String}
    (h : l.KeepsTo tools root) : l.watched.KeepsTo tools root where
  compiler t := h.compiler t.1
  runtime t := h.runtime t.1

end Launcher

namespace Site

/-- Rehearsed tools that are watched, at a root. -/
def watchedAt (root : String) : Site (List Answer × List Sighting) :=
  ⟨root, rehearsal.tools, rehearsal.launcher.watched⟩

theorem watchedAt_keepsTo (root : String) :
    (watchedAt root).launcher.KeepsTo (watchedAt root).tools (watchedAt root).root :=
  (Launcher.rehearsed_keepsTo rfl rfl root).watched

/-- Nothing is there yet and nothing was launched, and answers wait. -/
def unseen (answers : List Answer) : Bench (List Answer × List Sighting) :=
  ⟨.empty, (answers, []), []⟩

/-- The compiler writes an artifact and the runtime a candidate. -/
def obliging : Bench (List Answer × List Sighting) :=
  unseen [⟨some [0], 0⟩, ⟨some [0, 0, 0x80, 0x3f], 0⟩]

theorem quietly_proper {a : Area} {task : Task} (hformat : a.format = .raw)
    (hmodel : ∀ source, task = .saveModel source →
      location (a.modelPath source) ≠ a.manifestSpot ∧
        location (a.modelPath source) ≠ a.artifactSpot)
    (hdata : ∀ o, task = .compile o → o.dataset = none) : (quietly task).Proper a where
  format := hformat.symm
  silent := rfl
  manifest source h := (hmodel source h).1
  artifact source h := (hmodel source h).2
  dataset o path h hd := by
    rw [hdata o h] at hd
    cases hd

theorem obliged_proper : ∀ t ∈ staging ++ [compiling, inferring], t.Proper ⟨"w", .raw⟩ := by
  intro t ht
  simp only [staging, List.map_cons, List.map_nil, List.cons_append, List.nil_append,
    List.mem_cons, List.not_mem_nil, or_false] at ht
  rcases ht with rfl | rfl | rfl | rfl | rfl
  · exact quietly_proper rfl (fun _ h => by cases h) fun _ h => by cases h
  · refine quietly_proper rfl (fun source h => ?_) fun _ h => by cases h
    cases h
    decide
  · exact quietly_proper rfl (fun _ h => by cases h) fun _ h => by cases h
  · refine quietly_proper rfl (fun _ h => by cases h) fun o h => ?_
    cases h
    rfl
  · exact quietly_proper rfl (fun _ h => by cases h) fun _ h => by cases h

/-- Two launches are seen in the session. -/
theorem obliging_seen :
    ((watchedAt "w").after obliging (staging ++ [compiling, inferring])).tools.2.length = 2 := by
  have hturns : staging ++ [compiling, inferring] =
      (staging ++ [quietly (.compile {})]) ++ [inferring] := rfl
  obtain ⟨m, content, hcompiled, hready⟩ := furnished_compiled rehearsal.tools
    rehearsal.launcher.watched (b := obliging) rfl rfl
    ((Launcher.rehearsed_answers ⟨some [0], 0⟩ _).watched rfl)
  obtain ⟨⟨-, hseen⟩, -⟩ := hcompiled.infer_launches (t := inferring) rfl rfl hready rfl
    fun ⟨answers, seen⟩ ⟨hanswers, hcount⟩ =>
      (hanswers ▸ Launcher.rehearsed_answers ⟨some [0, 0, 0x80, 0x3f], 0⟩ []).watched hcount
  rw [watchedAt, hturns, after_append, after_cons, after_nil]
  exact hseen

/-- A compilation and an inference of what was staged launch one tool each. -/
theorem watched_conducted : ∃ launches : List (List Sighting),
    (watchedAt "w").Conducted obliging (staging ++ [compiling, inferring]) launches ∧
      launches.flatten.length = 2 := by
  obtain ⟨first, turns, hturns, hfirst⟩ : ∃ first turns,
      staging ++ [compiling, inferring] = first :: turns ∧ first.task = .clear := ⟨_, _, rfl, rfl⟩
  have hproper := obliged_proper
  have htwo := obliging_seen
  rw [hturns] at hproper htwo ⊢
  obtain ⟨launches, hconducted, hseen, -⟩ := after_clear_conducted (w := watchedAt "w")
    (b := obliging) rfl (watchedAt_keepsTo "w") hfirst (Or.inr rfl) hproper
  refine ⟨launches, hconducted, ?_⟩
  have hall := hseen Prod.snd (Launcher.watched_sees rehearsal.launcher)
  have hnone : Prod.snd obliging.tools = [] := rfl
  rw [hnone, List.nil_append] at hall
  rw [← hall, htwo]

/-- A manifest that gives the artifact as the file of an input. -/
def forged : Manifest :=
  Manifest.empty.record ⟨"case", .input, "model.kmodel", none, "uint8", "raw", ""⟩

/-- A model whose extension leads to the manifest. -/
def usurping : ModelSource := ⟨⟨[1], .f32⟩, ⟨"ncv-graph", "/../manifest.json"⟩, .ok forged.bytes⟩

/-- What is staged is compiled, and compiled again with a model in place of the manifest. -/
def usurped : List Turn := staging ++ [compiling, quietly (.saveModel usurping), compiling]

set_option maxRecDepth 10000 in
/-- With a model in place of the manifest the compiler is launched where no input is staged,
though no model is put in place of the artifact. -/
theorem usurped_unready :
    (∀ t ∈ usurped, ∀ source, t.task = .saveModel source →
      location (((watchedAt "w/model./..").area t).modelPath source) ≠
        (watchedAt "w/model./..").artifactSpot) ∧
    ((watchedAt "w/model./..").after (unseen [⟨some [0], 0⟩]) usurped).tools.2.getLast?.map
      (fun s => (s.request.tool, (((watchedAt "w/model./..").area compiling).stagedInputs.run
        s.files).1.toOption)) = some (.compiler, some []) := by
  refine ⟨fun t ht source h => ?_, by decide +kernel⟩
  simp only [usurped, staging, List.map_cons, List.map_nil, List.cons_append, List.nil_append,
    List.mem_cons, List.not_mem_nil, or_false] at ht
  rcases ht with rfl | rfl | rfl | rfl | rfl | rfl <;> cases h
  · decide
  · decide

end Site

end NetTrial
