import NetTrial.Proofs.StockedTurns
/-!
# Where an artifact comes from

The runtime is launched when an artifact is there, whoever left it. In a directory that no one
else writes the artifact is what the last launched compilation left, whether that compilation
ended well or not; it vanishes when the directory is cleared, unless the path of the directory
is empty, for then clearing takes nothing away.
-/

namespace NetTrial

open NetTrial.Path Text Digest NetTrial.Action

namespace Site

variable {σ : Type} {w : Site σ} {t : Turn} {b : Bench σ} {bytes : Bytes}

/-- Where the artifact of a site is, in whatever format tensors are staged. -/
def artifactSpot (w : Site σ) : Location := location w.root ++ [Area.artifactName]

/-- A turn launches a tool. -/
def Launches (w : Site σ) (t : Turn) (b : Bench σ) : Prop := (w.step b t).ledger ≠ b.ledger

/-- A turn launches the compiler. -/
def Compiles (w : Site σ) (t : Turn) (b : Bench σ) : Prop :=
  (∃ o, t.task = .compile o) ∧ w.Launches t b

/-- A turn launches the runtime, which finds some files. -/
def Infers (w : Site σ) (t : Turn) (b : Bench σ) (fs : Files) : Prop :=
  w.Launches t b ∧ ∃ case o request, t.task = .infer case o ∧
    ((w.area t).prepareInfer w.tools.runtime case o).run b.files = (.ok request, fs)

/-- A turn gives the digest of bytes as that of an artifact that it compiled. -/
def Certifies (w : Site σ) (t : Turn) (b : Bench σ) (bytes : Bytes) : Prop :=
  ((w.perform t).run b).1 = .ok (some (sha256Hex bytes))

/-- A file for the artifact is in a directory that clearing would empty, unless the path of the
directory is empty. -/
def Rooted (w : Site σ) (b : Bench σ) : Prop :=
  ∀ bytes, b.files.get? w.artifactSpot = some (.file bytes) →
    w.root = "" ∨ b.files.Stands w.root ∧ Files.checkPath w.root = .ok ()

theorem isBelow_artifactSpot (w : Site σ) :
    Files.isBelow (location w.root) w.artifactSpot = true := by
  rw [Files.isBelow_iff]
  refine ⟨⟨[Area.artifactName], rfl⟩, fun he => ?_⟩
  have hl := congrArg List.length he
  simp [artifactSpot] at hl

/-! ## One turn -/

theorem map_none_ne {α β : Type} (r : Except Failure α) (value : β) :
    (r.map fun _ => (none : Option β)) ≠ .ok (some value) := by
  cases r <;> exact fun h => by cases h

/-- A turn that compiles ends as the compilation does, but for the journal. -/
theorem step_compile_ends {o : CompileOptions} (ht : t.task = .compile o) (b : Bench σ) :
    ∃ r b', (w.area t).Compiling w.launcher w.tools.compiler o b r b' ∧
      b'.files.Spares t.journal.IsAt (w.step b t).files ∧ (w.step b t).ledger = b'.ledger ∧
      ∀ digest, ((w.perform t).run b).1 = .ok digest →
        ∃ compiled, r = .ok compiled ∧ digest = some compiled.sha256 := by
  obtain ⟨hcloses, hrun⟩ := step_compile (w := w) ht b
  refine ⟨_, _, (w.area t).compileStaged_ends w.launcher w.tools.compiler o b, ?_, ?_, ?_⟩
  · rw [step, hrun]
    exact hcloses.spares
  · rw [step, hrun]
    exact hcloses.ledger
  · intro digest hd
    rw [hrun] at hd
    cases hlogged : (((w.area t).compile t.journal w.launcher w.tools.compiler o).run b).1 with
    | error e =>
      rw [hlogged] at hd
      cases hd
    | ok compiled =>
      rw [hlogged] at hd
      cases hd
      exact ⟨compiled, hcloses.ok hlogged, rfl⟩

/-- A compilation that launches nothing fails and leaves no artifact that was not there. -/
theorem compile_unlaunched {o : CompileOptions} (ht : t.task = .compile o)
    (hj : ¬ t.journal.IsAt w.artifactSpot) (hn : ¬ w.Launches t b) :
    (∀ digest, ((w.perform t).run b).1 ≠ .ok digest) ∧
      ∀ bytes, (w.step b t).files.get? w.artifactSpot = some (.file bytes) →
        b.files.get? w.artifactSpot = some (.file bytes) := by
  obtain ⟨r, b', hends, hspares, hledger, hgives⟩ := step_compile_ends (w := w) ht b
  rw [Launches, hledger, Classical.not_not] at hn
  cases hends with
  | refused =>
    refine ⟨fun digest hd => ?_, fun bytes => (hspares.file _ hj bytes).mp⟩
    obtain ⟨_, hr, -⟩ := hgives digest hd
    cases hr
  | unread hp =>
    refine ⟨fun digest hd => ?_, fun bytes hf => ?_⟩
    · obtain ⟨_, hr, -⟩ := hgives digest hd
      cases hr
    · have hgone := ((w.area t).prepareCompile_ends _ o _).of_ok hp |>.2.2.2.1.gone
      exact absurd (hgone.symm.trans ((hspares.file _ hj bytes).mp hf)) (by simp)
  | failed _ | made _ _ _ =>
    rw [Area.launch_ledger] at hn
    exact absurd hn (by simp)

/-- A compilation that launches the compiler works in a directory that stands, and when it gives a
digest, that is the digest of the artifact. -/
theorem compile_launched {o : CompileOptions} (ht : t.task = .compile o)
    (hl : w.launcher.KeepsTo w.tools w.root) (hj : ¬ t.journal.IsAt w.artifactSpot)
    (hlaunched : w.Launches t b) :
    (w.root = "" ∨ (w.step b t).files.Stands w.root ∧ Files.checkPath w.root = .ok ()) ∧
      ∀ digest bytes, ((w.perform t).run b).1 = .ok digest →
        (w.step b t).files.get? w.artifactSpot = some (.file bytes) →
          digest = some (sha256Hex bytes) := by
  obtain ⟨r, b', hends, hspares, hledger, hgives⟩ := step_compile_ends (w := w) ht b
  have hrooted : ∀ {prepared fs}, ((w.area t).prepareCompile w.tools.compiler o).run b.files =
      (.ok prepared, fs) → w.root = "" ∨
        (w.step b t).files.Stands w.root ∧ Files.checkPath w.root = .ok () := by
    intro prepared fs hp
    obtain ⟨-, hs, hadmits, -⟩ := ((w.area t).prepareCompile_ends _ o _).of_ok hp
    rcases Area.checkPath_of_admits Area.isName_manifest hadmits with hc | he
    · exact Or.inr ⟨hspares.stands ((hends.spares hl).stands hs), hc⟩
    · exact Or.inl he
  rw [Launches, hledger] at hlaunched
  cases hends with
  | refused => exact absurd rfl hlaunched
  | unread _ => exact absurd rfl hlaunched
  | failed hp =>
    refine ⟨hrooted hp, fun digest bytes hd => ?_⟩
    obtain ⟨_, hr, -⟩ := hgives digest hd
    cases hr
  | made hp _ hread =>
    refine ⟨hrooted hp, fun digest bytes hd hf => ?_⟩
    obtain ⟨_, hr, rfl⟩ := hgives digest hd
    cases hr
    have hfound := Files.read_location hread
    rw [Area.location_artifactPath] at hfound
    have hthere := (hspares.file _ hj bytes).mp hf
    have hsame := hfound.symm.trans hthere
    cases hsame
    rfl

/-- Only a compilation gives a digest. -/
theorem Certifies.task (h : w.Certifies t b bytes) : ∃ o, t.task = .compile o := by
  rw [Certifies] at h
  cases ht : t.task with
  | compile o => exact ⟨o, rfl⟩
  | clear | saveModel _ | saveTensor _ _ _ | recordExternal _ _ _ | infer _ _ =>
    rw [perform, ht, run_bind_pure] at h
    exact absurd h (map_none_ne _ _)

/-- What certifies bytes is a compilation that launched the compiler. -/
theorem Certifies.compiles (h : w.Certifies t b bytes) (hj : ¬ t.journal.IsAt w.artifactSpot) :
    w.Compiles t b := by
  obtain ⟨o, ht⟩ := h.task
  refine ⟨⟨o, ht⟩, Classical.byContradiction fun hn => ?_⟩
  exact (compile_unlaunched ht hj hn).1 _ h

/-- Only a compilation writes at the place of the artifact. -/
theorem not_places_artifactSpot (havoid : w.Avoids w.artifactSpot t)
    (hn : ¬ ∃ o, t.task = .compile o) : ¬ w.Places t w.artifactSpot := by
  have hmanifest : w.artifactSpot ≠ (w.area t).manifestSpot :=
    (w.area t).artifactSpot_ne_manifestSpot
  rintro (hj | hplace)
  · exact havoid.journal hj
  cases ht : t.task with
  | clear =>
    rw [ht] at hplace
    exact hplace
  | saveModel source =>
    rw [ht] at hplace
    rcases hplace with he | he
    · exact havoid.model source ht he.symm
    · exact hmanifest he
  | saveTensor case role tensor =>
    rw [ht] at hplace
    rcases hplace with he | he
    · exact (w.area t).location_tensorPath_ne_fixed Area.artifact_fixed case role he.symm
    · exact hmanifest he
  | recordExternal case role kind =>
    rw [ht] at hplace
    exact hmanifest hplace
  | compile o => exact hn ⟨o, ht⟩
  | infer case o =>
    rw [ht] at hplace
    rcases hplace with he | he
    · exact (w.area t).candidateSpot_ne_artifactSpot case he.symm
    · exact hmanifest he

/-- What is at the place of the artifact after a turn was left by its compilation, or was there
before a turn that neither launches the compiler nor clears a directory with a name. -/
theorem step_artifact (havoid : w.Avoids w.artifactSpot t)
    (hl : w.launcher.KeepsTo w.tools w.root) (hrooted : w.Rooted b)
    (hf : (w.step b t).files.get? w.artifactSpot = some (.file bytes)) :
    w.Compiles t b ∨ (b.files.get? w.artifactSpot = some (.file bytes) ∧ ¬ w.Compiles t b ∧
      (w.root ≠ "" → t.task ≠ .clear)) := by
  by_cases hc : w.Compiles t b
  · exact Or.inl hc
  right
  by_cases htask : ∃ o, t.task = .compile o
  · obtain ⟨o, ht⟩ := htask
    have hn : ¬ w.Launches t b := fun h => hc ⟨⟨o, ht⟩, h⟩
    exact ⟨(compile_unlaunched ht havoid.journal hn).2 bytes hf, hc, fun _ hclear => by
      rw [ht] at hclear
      cases hclear⟩
  · have hold := step_old hl (not_places_artifactSpot havoid htask) hf
    refine ⟨hold, hc, fun hroot hclear => ?_⟩
    obtain ⟨hs, hcheck⟩ := (hrooted bytes hold).resolve_left hroot
    obtain ⟨bare, hcloses, hstep⟩ := step_clear (w := w) hclear b
    rw [hstep] at hf
    have hswept := (hcloses.spares.file _ havoid.journal bytes).mp hf
    exact Area.reset_no_file (a := w.area t) hs hcheck w.isBelow_artifactSpot bytes hswept

theorem step_rooted (havoid : w.Avoids w.artifactSpot t)
    (hl : w.launcher.KeepsTo w.tools w.root) (hrooted : w.Rooted b) : w.Rooted (w.step b t) := by
  intro bytes hf
  rcases step_artifact havoid hl hrooted hf with ⟨⟨o, ht⟩, hlaunched⟩ | ⟨hold, -, hclear⟩
  · exact (compile_launched ht hl havoid.journal hlaunched).1
  · by_cases hroot : w.root = ""
    · exact Or.inl hroot
    · obtain ⟨hs, hcheck⟩ := (hrooted bytes hold).resolve_left hroot
      exact Or.inr ⟨(step_spares hl (hclear hroot) b).stands hs, hcheck⟩

/-! ## Runs -/

variable {turns earlier later : List Turn} {c : Turn}

/-- No turn of a run launches the compiler. -/
def Still (w : Site σ) (b : Bench σ) (turns : List Turn) : Prop :=
  ∀ before turn, before ++ [turn] <+: turns → ¬ w.Compiles turn (w.after b before)

theorem still_nil (w : Site σ) (b : Bench σ) : w.Still b [] := w.never_nil w.Compiles b

theorem Still.cons (h : ¬ w.Compiles t b) (hlater : w.Still (w.step b t) later) :
    w.Still b (t :: later) := Never.cons h hlater

/-- No turn of a run clears the directory. -/
def Uncleared (turns : List Turn) : Prop := ∀ turn ∈ turns, turn.task ≠ .clear

/-- The last turn of a run that launches the compiler, and what is around it. -/
structure LastCompiled (w : Site σ) (b : Bench σ) (turns earlier : List Turn) (c : Turn)
    (later : List Turn) : Prop where
  /-- Where it is. -/
  split : turns = earlier ++ c :: later
  /-- It launches the compiler. -/
  compiles : w.Compiles c (w.after b earlier)
  /-- No later turn does. -/
  still : w.Still (w.after b (earlier ++ [c])) later

theorem LastCompiled.cons (h : w.LastCompiled (w.step b t) turns earlier c later) :
    w.LastCompiled b (t :: turns) (t :: earlier) c later where
  split := by rw [h.split, List.cons_append]
  compiles := h.compiles
  still := h.still

/-- Some compilation of a run since the last clearing gave the digest of some bytes. -/
def Certified (w : Site σ) (b : Bench σ) (turns : List Turn) (bytes : Bytes) : Prop :=
  ∃ earlier c later, turns = earlier ++ c :: later ∧ Uncleared later ∧
    w.Certifies c (w.after b earlier) bytes

/-- Of two turns of a run one comes before the other, if they are not the same. -/
theorem split_eq_split {before after : List Turn} {d : Turn}
    (h : before ++ d :: after = earlier ++ c :: later) :
    (before = earlier ∧ d = c ∧ after = later) ∨
      (∃ mid, before = earlier ++ c :: mid ∧ later = mid ++ d :: after) ∨
      ∃ mid, earlier = before ++ d :: mid ∧ after = mid ++ c :: later := by
  rcases List.append_eq_append_iff.mp h with ⟨mid, hearlier, hrest⟩ | ⟨mid, hbefore, hrest⟩
  · cases mid with
    | nil =>
      cases hrest
      exact Or.inl ⟨by rw [hearlier, List.append_nil], rfl, rfl⟩
    | cons x mid =>
      cases hrest
      exact Or.inr (Or.inr ⟨mid, hearlier, rfl⟩)
  · cases mid with
    | nil =>
      cases hrest
      exact Or.inl ⟨by rw [hbefore, List.append_nil], rfl, rfl⟩
    | cons x mid =>
      cases hrest
      exact Or.inr (Or.inl ⟨mid, hbefore, rfl⟩)

/-- In a run whose only compilation is its last turn, that turn certifies what is certified. -/
theorem Certified.last (h : w.Certified b (earlier ++ [c]) bytes)
    (hn : ∀ turn ∈ earlier, ¬ ∃ o, turn.task = .compile o) :
    w.Certifies c (w.after b earlier) bytes := by
  obtain ⟨before, d, after, hsplit, -, hcertifies⟩ := h
  rcases split_eq_split hsplit.symm with ⟨rfl, rfl, -⟩ | ⟨mid, -, hmid⟩ | ⟨mid, hearlier, -⟩
  · exact hcertifies
  · simp at hmid
  · exact absurd hcertifies.task (hn d (by rw [hearlier]; simp))

/-- What is at the place of the artifact after a run was left by the last compilation that was
launched, or was there before the run when there is no such compilation; and no clearing of a
directory with a name came between. -/
theorem run_artifact (hl : w.launcher.KeepsTo w.tools w.root)
    (havoid : ∀ turn ∈ turns, w.Avoids w.artifactSpot turn) (hrooted : w.Rooted b)
    (hf : (w.after b turns).files.get? w.artifactSpot = some (.file bytes)) :
    (b.files.get? w.artifactSpot = some (.file bytes) ∧ w.Still b turns ∧
      (w.root ≠ "" → Uncleared turns)) ∨
    ∃ earlier c later, w.LastCompiled b turns earlier c later ∧
      (w.after b (earlier ++ [c])).files.get? w.artifactSpot = some (.file bytes) ∧
      (w.root ≠ "" → Uncleared later) := by
  induction turns generalizing b with
  | nil => exact Or.inl ⟨hf, w.still_nil b, fun _ turn h => by cases h⟩
  | cons t rest ih =>
    have havoidt := havoid t List.mem_cons_self
    rcases ih (fun turn h => havoid turn (List.mem_cons_of_mem _ h))
        (step_rooted havoidt hl hrooted) hf with
      ⟨hthen, hstill, huncleared⟩ | ⟨earlier, c, later, hlast, hleft, huncleared⟩
    · rcases step_artifact havoidt hl hrooted hthen with hcompiles | ⟨hold, hnot, hclear⟩
      · exact Or.inr ⟨[], t, rest, ⟨rfl, hcompiles, hstill⟩, hthen, huncleared⟩
      · refine Or.inl ⟨hold, hstill.cons hnot, fun hroot turn hturn => ?_⟩
        rcases List.mem_cons.mp hturn with rfl | hturn
        · exact hclear hroot
        · exact huncleared hroot turn hturn
    · exact Or.inr ⟨t :: earlier, c, later, hlast.cons, hleft, huncleared⟩

/-- What the last launched compilation left is certified, in a run that has not cleared since, by
that compilation or by an earlier one that gave the same digest. -/
theorem LastCompiled.certified_iff (h : w.LastCompiled b turns earlier c later)
    (hl : w.launcher.KeepsTo w.tools w.root)
    (havoid : ∀ turn ∈ turns, w.Avoids w.artifactSpot turn)
    (hf : (w.after b (earlier ++ [c])).files.get? w.artifactSpot = some (.file bytes)) :
    w.Certified b turns bytes ↔ Uncleared later ∧
      ((∃ digest, ((w.perform c).run (w.after b earlier)).1 = .ok digest) ∨
        w.Certified b earlier bytes) := by
  constructor
  · rintro ⟨before, d, after, hsplit, huncleared, hcertifies⟩
    rcases split_eq_split (hsplit.symm.trans h.split) with
      ⟨rfl, rfl, rfl⟩ | ⟨mid, hbefore, hlater⟩ | ⟨mid, hearlier, rfl⟩
    · exact ⟨huncleared, Or.inl ⟨_, hcertifies⟩⟩
    · -- a later turn that certifies would have launched the compiler
      have hd : d ∈ turns := by
        rw [hsplit]
        simp
      refine absurd (hcertifies.compiles (havoid d hd).journal) ?_
      have hprefix : mid ++ [d] <+: later := by
        rw [hlater]
        exact (List.prefix_append_right_inj mid).mpr (by simp)
      have hstill := h.still mid d hprefix
      rw [← after_append] at hstill
      rw [hbefore]
      simpa using hstill
    · refine ⟨fun turn hturn => huncleared turn (by simp [hturn]), Or.inr ?_⟩
      exact ⟨before, d, mid, hearlier, fun turn hturn => huncleared turn (by simp [hturn]),
        hcertifies⟩
  · rintro ⟨huncleared, ⟨digest, hok⟩ | ⟨before, d, mid, rfl, hmid, hcertifies⟩⟩
    · obtain ⟨o, ht⟩ := h.compiles.1
      have hc : c ∈ turns := by
        rw [h.split]
        simp
      have hdigest := (compile_launched ht hl (havoid c hc).journal h.compiles.2).2 digest bytes hok
      rw [after_append] at hf
      refine ⟨earlier, c, later, h.split, huncleared, ?_⟩
      rw [Certifies, hok, hdigest hf]
    · refine ⟨before, d, mid ++ c :: later, by rw [h.split]; simp, fun turn hturn => ?_, hcertifies⟩
      rcases List.mem_append.mp hturn with hturn | hturn
      · exact hmid turn hturn
      · rcases List.mem_cons.mp hturn with rfl | hturn
        · obtain ⟨o, ht⟩ := h.compiles.1
          rw [ht]
          exact fun hclear => by cases hclear
        · exact huncleared turn hturn

/-- The runtime is launched with an artifact in place. -/
theorem Infers.artifact {fs : Files} (h : w.Infers t b fs) : ∃ bytes,
    fs.get? w.artifactSpot = some (.file bytes) ∧
      b.files.get? w.artifactSpot = some (.file bytes) := by
  obtain ⟨-, case, o, request, -, hp⟩ := h
  obtain ⟨-, hfile, -, ⟨hspares, -⟩, -⟩ := ((w.area t).prepareInfer_ends _ case o _).of_ok hp
  obtain ⟨-, -, bytes, hf⟩ := (Files.isFile_join_iff Area.isName_artifact).mp hfile
  refine ⟨bytes, (hspares.file _ ?_ bytes).mpr hf, hf⟩
  exact ((w.area t).candidateSpot_ne_artifactSpot case).symm

/-- In a directory without an artifact at first, a runtime is launched only after some
compilation launched the compiler, and runs what the last such compilation left. These bytes are
certified when nothing was cleared since and that compilation gave a digest, or an earlier one
gave this digest, and only then. -/
theorem infers_last_compiled (hl : w.launcher.KeepsTo w.tools w.root)
    (hstart : ∀ bytes, b.files.get? w.artifactSpot ≠ some (.file bytes))
    (havoid : ∀ turn ∈ turns, w.Avoids w.artifactSpot turn) {fs : Files}
    (h : w.Infers t (w.after b turns) fs) :
    ∃ bytes earlier c later, fs.get? w.artifactSpot = some (.file bytes) ∧
      w.LastCompiled b turns earlier c later ∧
      (w.after b (earlier ++ [c])).files.get? w.artifactSpot = some (.file bytes) ∧
      (w.root ≠ "" → Uncleared later) ∧
      (w.Certified b turns bytes ↔ Uncleared later ∧
        ((∃ digest, ((w.perform c).run (w.after b earlier)).1 = .ok digest) ∨
          w.Certified b earlier bytes)) := by
  obtain ⟨bytes, hfs, hf⟩ := h.artifact
  have hrooted : w.Rooted b := fun found hfound => absurd hfound (hstart found)
  rcases run_artifact hl havoid hrooted hf with
    ⟨hold, -, -⟩ | ⟨earlier, c, later, hlast, hleft, huncleared⟩
  · exact absurd hold (hstart bytes)
  · exact ⟨bytes, earlier, c, later, hfs, hlast, hleft, huncleared,
      hlast.certified_iff hl havoid hleft⟩

/-- A compilation, and an inference after it. -/
def compiling : Turn := quietly (.compile {})

/-- An inference of the staged input. -/
def inferring : Turn := quietly (.infer "case" {})

/-- The compiler leaves an artifact and fails. -/
def botched : Bench (List Answer) := fresh [⟨some [0], 1⟩]

/-- A prepared inference launches the runtime on what is there. -/
theorem Furnished.infers {m : Manifest} {content : String → Option Bytes} {answer : Answer}
    {state next : σ → Prop} {launches : Nat} (h : w.Furnished state launches m content b)
    (hj : t.journal.path = none) {case : String} {o : InferOptions} (ht : t.task = .infer case o)
    (hready : (w.area t).Inferable case o m content) (hc : w.tools.runtime.leading = [])
    (hl : ∀ s, state s → w.launcher.Answers s answer next) :
    ∃ fs, w.Infers t b fs ∧ (w.area t).Stocked fs m
      (Function.update content ((w.area t).tensorFile case .candidate) none) := by
  obtain ⟨-, hledger, request, fs, hprepared, hstocked⟩ := h.infer_launches hj ht hready hc hl
  refine ⟨fs, ⟨fun hsame => ?_, case, o, request, ht, hprepared⟩, hstocked⟩
  rw [hsame] at hledger
  omega

theorem botched_fails :
    reasonOf ((rehearsal.perform compiling).run (rehearsal.after botched staging)).1 =
      some "harness_compile_failed" := by
  obtain ⟨m, content, hstaged, hprovides, -⟩ :=
    furnished_staging rehearsal.tools .rehearsed (b := botched) rfl
  exact hstaged.compile_failed (t := compiling) rfl rfl (compilable_graph hprovides) rfl
    (by rintro _ rfl; exact Launcher.rehearsed_answers ⟨some [0], 1⟩ []) (by decide) (by decide)

theorem botched_infers : ∃ fs,
    rehearsal.Infers inferring (rehearsal.after botched (staging ++ [compiling])) fs := by
  obtain ⟨m, content, hcompiled, hready⟩ := furnished_compiled rehearsal.tools .rehearsed
    (b := botched) rfl rfl (Launcher.rehearsed_answers ⟨some [0], 1⟩ [])
  obtain ⟨fs, hinfers, -⟩ := hcompiled.infers (t := inferring) rfl rfl hready rfl
    (by rintro _ rfl; exact Launcher.rehearsed_answers_nil)
  exact ⟨fs, hinfers⟩

theorem staging_avoids :
    ∀ turn ∈ staging ++ [compiling], rehearsal.Avoids rehearsal.artifactSpot turn := by
  intro turn hturn
  simp only [staging, List.map_cons, List.map_nil, List.cons_append, List.nil_append,
    List.mem_cons, List.not_mem_nil, or_false] at hturn
  rcases hturn with rfl | rfl | rfl | rfl
  · exact quietly_avoids fun source h => by cases h
  · refine quietly_avoids fun source h => ?_
    cases h
    decide
  · exact quietly_avoids fun source h => by cases h
  · exact quietly_avoids fun source h => by cases h

/-- The artifact of a compilation that failed is what the runtime finds. -/
theorem botched_traced : ∃ (fs : Files) (bytes : Bytes) (earlier : List Turn) (c : Turn)
    (later : List Turn),
    fs.get? rehearsal.artifactSpot = some (.file bytes) ∧
      rehearsal.LastCompiled botched (staging ++ [compiling]) earlier c later ∧
      (rehearsal.after botched (earlier ++ [c])).files.get? rehearsal.artifactSpot =
        some (.file bytes) ∧
      (rehearsal.root ≠ "" → Uncleared later) ∧
      (rehearsal.Certified botched (staging ++ [compiling]) bytes ↔ Uncleared later ∧
        ((∃ digest, ((rehearsal.perform c).run (rehearsal.after botched earlier)).1 = .ok digest) ∨
          rehearsal.Certified botched earlier bytes)) := by
  obtain ⟨fs, hinfers⟩ := botched_infers
  exact ⟨fs, infers_last_compiled (w := rehearsal) (b := botched) rehearsal_keepsTo
    (fun bytes h => by cases h) staging_avoids hinfers⟩

/-- The runtime is launched on an artifact that no compilation has certified. -/
theorem botched_uncertified : ∃ fs bytes,
    rehearsal.Infers inferring (rehearsal.after botched (staging ++ [compiling])) fs ∧
      fs.get? rehearsal.artifactSpot = some (.file bytes) ∧
      ¬ rehearsal.Certified botched (staging ++ [compiling]) bytes := by
  obtain ⟨fs, hinfers⟩ := botched_infers
  obtain ⟨bytes, hfs, -⟩ := hinfers.artifact
  refine ⟨fs, bytes, hinfers, hfs, fun hcertified => ?_⟩
  have hlast := hcertified.last fun turn hturn => by
    simp only [staging, List.map_cons, List.map_nil, List.mem_cons, List.not_mem_nil,
      or_false] at hturn
    rcases hturn with rfl | rfl | rfl <;> rintro ⟨o, ho⟩ <;> cases ho
  obtain ⟨e, he, -⟩ := reasonOf_eq_some.mp botched_fails
  rw [Certifies, he] at hlast
  cases hlast

end Site

end NetTrial
