import NetTrial.Proofs.Artifacts
/-!
# Paths that two processes read

The harness hands paths to its tools as it spells them itself, with the root in front, and has the
tools run in the root. Both follow the same spelling, but each from the directory that it runs in.
They mean the same places exactly when following the root from the root leads back to it: always
for a root that opens with a slash, never for a plain name.
-/

namespace NetTrial

open NetTrial.Path Text NetTrial.Action

namespace Path

/-- Where following a path begins in a process that runs in a directory. -/
def origin (here : Location) (path : String) : Location :=
  if startsWith "/" path then [] else here

theorem origin_of_absolute {path : String} (h : startsWith "/" path = true) (here : Location) :
    origin here path = [] := if_pos h

/-- What stands behind a base is followed from where the base is. -/
theorem origin_join (here : Location) (base : String) {path : String}
    (h : startsWith "/" path = false) : origin here (join base path) = origin here base := by
  have hnot : ¬ startsWith "/" path = true := by simp [h]
  by_cases he : base = ""
  · subst he
    rw [join, if_neg hnot, if_pos (Or.inl rfl), String.empty_append, origin, if_neg hnot]
    rfl
  · obtain ⟨c, cs, hcs⟩ : ∃ c cs, base.toList = c :: cs :=
      List.exists_cons_of_ne_nil fun hn => he (String.toList_inj.mp hn)
    have hopens : ∀ rest, startsWith "/" (base ++ rest) = startsWith "/" base := by
      intro rest
      rw [Bool.eq_iff_iff, startsWith_iff, startsWith_iff, String.toList_append, hcs]
      simp
    rw [origin, origin, join, if_neg hnot]
    split
    · rw [hopens]
    · rw [String.append_assoc, hopens]

/-- Pieces that never move up lead one step down each, but for idle ones. -/
theorem length_walk {ps : List String} (h : ".." ∉ ps) (loc : Location) :
    (walk loc ps).length = loc.length + (ps.filter fun p => !isIdle p).length := by
  induction ps generalizing loc with
  | nil => rfl
  | cons p ps ih =>
    rw [List.mem_cons, not_or] at h
    rw [walk, List.foldl_cons]
    change (walk (step loc p) ps).length = _
    rw [ih h.2, step]
    by_cases hi : isIdle p = true
    · simp [hi]
    · simp [hi, Ne.symm h.1]
      omega

/-- What is joined to a base comes last, and the base alone decides what stands before it. -/
theorem join_eq_append (base : String) :
    ∃ front, ∀ path, startsWith "/" path = false → join base path = front ++ path := by
  by_cases hb : base = "" ∨ endsWith "/" base = true
  · exact ⟨base, fun path h => by rw [join, if_neg (by simp [h]), if_pos hb]⟩
  · exact ⟨base ++ "/", fun path h => by rw [join, if_neg (by simp [h]), if_neg hb]⟩

end Path

namespace Files

variable {fs : Files} {here there loc : Location} {root name : String}

/-! ## Places from a directory -/

/-- A path leads a process that runs in a directory to a directory. -/
def Leads (fs : Files) (here : Location) (path : String) (there : Location) : Prop :=
  fs.follow (origin here path) (pieces path) = .ok there ∧ fs.isDirectoryAt there = true

/-- The place that a path names for a process that runs in a directory, whether anything is there
or not. What stands before the last piece must lead to a directory. -/
def place (fs : Files) (here : Location) (path : String) : Except OsError Location := do
  checkPath path
  let directory ← fs.follow (origin here path) (named path).dropLast
  if fs.isDirectoryAt directory then
    match (named path).getLast? with
    | none => return directory
    | some last => do
      checkName last
      return step directory last
  else .error .notDirectory

/-- A root that opens with a slash leads to one place, from wherever it is followed. -/
theorem Leads.of_absolute (h : fs.Leads here root there) (hr : startsWith "/" root = true)
    (other : Location) : fs.Leads other root there := by
  rw [Leads, origin_of_absolute hr] at h ⊢
  exact h

/-- The place of a path, by its last named piece. -/
theorem place_of_named {path : String} {front : List String} {last : String}
    (hc : checkPath path = .ok ()) (hp : named path = front ++ [last]) :
    fs.place here path = (fs.follow (origin here path) front).bind fun directory =>
      if fs.isDirectoryAt directory = true then
        (checkName last).bind fun _ => .ok (step directory last)
      else .error .notDirectory := by
  simp only [place, hc, hp, List.getLast?_concat, List.dropLast_concat]
  rfl

/-- A place depends on the directory that a process runs in only for a path that begins there. -/
theorem place_congr {path : String} (h : origin here path = origin there path) :
    fs.place here path = fs.place there path := by
  rw [place, place, h]

/-- A path that can be followed to its end names that end. -/
theorem place_of_follow {path : String} (hc : checkPath path = .ok ())
    (hf : fs.follow (origin here path) (pieces path) = .ok loc) :
    fs.place here path = .ok loc := by
  obtain ⟨count, hp⟩ := pieces_eq_named path
  cases hlast : (named path).getLast? with
  | none =>
    have hn := List.getLast?_eq_none_iff.mp hlast
    cases count with
    | zero => exact absurd (hp.trans (by rw [hn]; rfl)) (pieces_ne_nil path)
    | succ count =>
      have hend := follow_eq_walk hf
      rw [hp, hn, List.nil_append] at hf
      rw [hp, hn, List.nil_append, walk_replicate_empty] at hend
      have hd := (follow_cons_eq_ok.mp hf).1
      rw [hend, place, hc, hn]
      change (if _ then _ else _) = _
      rw [if_pos hd]
      rfl
  | some last =>
    obtain ⟨front, hn⟩ := List.getLast?_eq_some_iff.mp hlast
    rw [hp, hn] at hf
    obtain ⟨l, hnamed, hempty⟩ := follow_append_eq_ok.mp hf
    obtain ⟨directory, hfront, hl⟩ := follow_append_eq_ok.mp hnamed
    obtain ⟨hd, hrest, hkind⟩ := follow_cons_eq_ok.mp hl
    have hend : loc = step directory last := by
      rw [follow_eq_walk hempty, walk_replicate_empty]
      exact follow_eq_walk hrest
    have hshort : checkName last = .ok () := by
      rcases hkind with hi | rfl | ⟨hk, -⟩
      · rw [(isIdle_iff.mp hi).resolve_left (named_getLast_ne hlast)]
        exact if_neg (by decide)
      · exact if_neg (by decide)
      · exact hk
    rw [place_of_named hc hn, hfront]
    change (if _ then _ else _) = _
    rw [if_pos hd, hshort, hend]
    rfl

theorem Stands.leads (h : fs.Stands root) : fs.Leads [] root (location root) := by
  rwa [Leads, origin, ite_self]

/-- What a process finds at a path is at the place that the path names for it. -/
theorem place_of_locate {path : String} {node : Node} (h : fs.locate path = .ok (loc, node)) :
    fs.place [] path = .ok loc := by
  obtain ⟨hc, hf, -⟩ := locate_eq_ok.mp h
  refine place_of_follow hc ?_
  rwa [origin, ite_self]

/-- An entry that a process names is at the place that the path names for it. -/
theorem Entry.place {path : String} {directory : Location} (h : fs.Entry path directory name) :
    fs.place [] path = .ok (directory ++ [name]) := by
  obtain ⟨front, hp, hf⟩ := h.leads
  rw [place_of_named h.admitted hp, origin, ite_self, hf]
  change (if _ then _ else _) = _
  rw [if_pos h.parent, h.short]
  simp [Except.bind, step, h.moves, h.forward]

/-! ## What stands behind a root -/

/-- The pieces of a root lead to its directory, with an empty one at the end or without. -/
theorem leads_iff_front {front : List String}
    (h : pieces root = front ∨ pieces root = front ++ [""]) :
    fs.Leads here root there ↔
      fs.follow (origin here root) front = .ok there ∧ fs.isDirectoryAt there = true := by
  rw [Leads]
  rcases h with h | h
  · rw [h]
  · rw [h, follow_append]
    cases fs.follow (origin here root) front with
    | error e => simp [Except.bind]
    | ok l =>
      change fs.follow l [""] = _ ∧ _ ↔ _
      rw [follow_cons_eq_ok, step_idle rfl]
      constructor
      · rintro ⟨⟨-, h, -⟩, hd⟩
        exact ⟨h, hd⟩
      · rintro ⟨h, hd⟩
        cases h
        exact ⟨⟨hd, rfl, Or.inl rfl⟩, hd⟩

/-- The entry of a root is named in the directory that the root leads to. -/
theorem place_join_eq_ok (hn : IsName name) (ha : admits root name = .ok ()) :
    fs.place here (join root name) = .ok loc ↔
      ∃ directory, fs.Leads here root directory ∧ loc = directory ++ [name] := by
  obtain ⟨hc, hshort⟩ := admits_eq_ok.mp ha
  obtain ⟨front, hp, hb⟩ := named_join root hn
  simp only [leads_iff_front hb, place_of_named hc hp, origin_join here root hn.relative, hshort,
    step_isName hn]
  cases fs.follow (origin here root) front with
  | error e => simp [Except.bind]
  | ok directory =>
    by_cases hd : fs.isDirectoryAt directory = true
    · simp only [Except.bind, hd, if_true, Except.ok.injEq]
      constructor
      · rintro rfl
        exact ⟨directory, ⟨rfl, hd⟩, rfl⟩
      · rintro ⟨_, ⟨rfl, -⟩, rfl⟩
        rfl
    · simp only [Except.bind, hd, Bool.false_eq_true, if_false, reduceCtorEq, false_iff]
      rintro ⟨_, ⟨h, hd'⟩, -⟩
      cases h
      exact hd hd'

/-- Two processes name one entry of a root only when following the root from its directory leads
there again. -/
theorem leads_again (hn : IsName name) (ha : admits root name = .ok ())
    (h : fs.Leads here root there)
    (hsame : fs.place there (join root name) = fs.place here (join root name)) :
    fs.Leads there root there := by
  rw [(place_join_eq_ok hn ha).mpr ⟨there, h, rfl⟩, place_join_eq_ok hn ha] at hsame
  obtain ⟨directory, hleads, he⟩ := hsame
  rw [List.append_cancel_right_eq] at he
  exact he ▸ hleads

/-- A root that does not open with a slash, never moves up and moves at all does not lead from its
directory there again. -/
theorem not_leads_again (hr : startsWith "/" root = false) (hup : ".." ∉ pieces root)
    (hmoves : ∃ piece ∈ pieces root, isIdle piece = false) : ¬ fs.Leads there root there := by
  rintro ⟨hf, -⟩
  have hend := follow_eq_walk hf
  rw [origin, if_neg (by simp [hr])] at hend
  have hlength := length_walk hup there
  rw [← hend] at hlength
  have hnone : (pieces root).filter (fun p => !isIdle p) = [] :=
    List.eq_nil_of_length_eq_zero (by omega)
  obtain ⟨piece, hp, hm⟩ := hmoves
  exact absurd (List.filter_eq_nil_iff.mp hnone piece hp) (by simp [hm])

/-- When following a root from its directory leads back there, whatever stands behind the root is
named alike from both directories. -/
theorem place_join_congr (h : fs.Leads here root there) (hagain : fs.Leads there root there)
    (path : String) : fs.place there (join root path) = fs.place here (join root path) := by
  cases hs : startsWith "/" path with
  | true =>
    refine place_congr ?_
    rw [join, if_pos hs, origin_of_absolute hs, origin_of_absolute hs]
  | false =>
    cases hc : checkPath (join root path) with
    | error e => simp only [place, hc, bind, Except.bind]
    | ok _ =>
      obtain ⟨front, hp, hb⟩ := pieces_join_relative root hs
      obtain ⟨count, hcount⟩ := pieces_eq_named path
      have horigin : ∀ loc, origin loc (join root path) = origin loc root :=
        fun loc => origin_join loc root hs
      have hhere := ((leads_iff_front hb).mp h).1
      have hthere := ((leads_iff_front hb).mp hagain).1
      cases hlast : (named path).getLast? with
      | none =>
        -- nothing but empty pieces follows the root: both are at the directory itself
        have hn := List.getLast?_eq_none_iff.mp hlast
        have hend : ∀ begin, fs.follow begin front = .ok there →
            fs.follow begin (pieces (join root path)) = .ok there := by
          intro begin hf
          rw [hp, hcount, hn, List.nil_append, follow_append, hf]
          exact follow_replicate_empty h.2 count
        rw [place_of_follow hc (by rw [horigin]; exact hend _ hthere),
          place_of_follow hc (by rw [horigin]; exact hend _ hhere)]
      | some last =>
        obtain ⟨rest, hn⟩ := List.getLast?_eq_some_iff.mp hlast
        have hnamed : named (join root path) = front ++ rest ++ [last] := by
          refine named_of_pieces count ?_ (named_getLast_ne hlast)
          simp only [hp, hcount, hn, List.append_assoc]
        rw [place_of_named hc hnamed, place_of_named hc hnamed, horigin, horigin, follow_append,
          follow_append, hhere, hthere]

end Files

namespace Area

/-- Whether the artifact can be spoken of hangs on the manifest, whose name is longer. -/
theorem admits_artifact {root : String} (h : Files.admits root manifestName = .ok ()) :
    Files.admits root artifactName = .ok () := by
  obtain ⟨front, hj⟩ := join_eq_append root
  obtain ⟨hc, -⟩ := Files.admits_eq_ok.mp h
  rw [hj _ isName_manifest.relative, Files.checkPath_eq_ok, String.toList_append,
    List.mem_append, not_or, String.utf8ByteSize_append] at hc
  obtain ⟨⟨hz, -⟩, -, hl⟩ := hc
  have hlonger : artifactName.utf8ByteSize ≤ manifestName.utf8ByteSize := by decide
  refine Files.admits_eq_ok.mpr ⟨?_, if_neg (by decide)⟩
  rw [hj _ isName_artifact.relative, Files.checkPath_eq_ok, String.toList_append,
    List.mem_append, not_or, String.utf8ByteSize_append]
  refine ⟨⟨hz, by decide⟩, fun he => ?_, by omega⟩
  exact absurd (String.append_eq_empty_iff.mp he).2 (by decide)

end Area

namespace Site

variable {σ : Type} {w : Site σ} {t : Turn} {b : Bench σ} {request : Request}
  {own : List String} {fs : Files}

/-! ## Launched requests -/

/-- The request that a turn prepares for its tool, the paths in it that lead into the root, and the
files that the preparation leaves. -/
inductive Prepares (w : Site σ) (t : Turn) (b : Bench σ) :
    Request → List String → Files → Prop where
  /-- A compilation hands over the model and the artifact. -/
  | compile {o : CompileOptions} {request : Request} {model : String} {fs : Files} :
      t.task = .compile o →
      ((w.area t).prepareCompile w.tools.compiler o).run b.files = (.ok (request, model), fs) →
      Prepares w t b request [model, (w.area t).artifactPath] fs
  /-- An inference hands over the artifact, the candidate and the input. -/
  | infer {case : String} {o : InferOptions} {request : Request} {fs : Files} :
      t.task = .infer case o →
      ((w.area t).prepareInfer w.tools.runtime case o).run b.files = (.ok request, fs) →
      Prepares w t b request [(w.area t).artifactPath, (w.area t).tensorPath case .candidate,
        (w.area t).tensorPath case .input] fs

/-- A turn launches the request that it prepared, and the ledger shows it. -/
def Sends (w : Site σ) (t : Turn) (b : Bench σ) (request : Request) (own : List String)
    (fs : Files) : Prop :=
  w.Prepares t b request own fs ∧ ∃ note,
    (w.step b t).ledger =
      b.ledger ++ [Event.of request (w.launcher.launch request fs b.tools).1 note]

/-- A turn that infers ends as the inference does, but for the journal. -/
theorem step_infer_ends {case : String} {o : InferOptions} (ht : t.task = .infer case o)
    (b : Bench σ) :
    ∃ r b', (w.area t).Inferring w.launcher w.tools.runtime case o b r b' ∧
      (w.step b t).ledger = b'.ledger := by
  obtain ⟨hcloses, hrun⟩ := step_infer (w := w) ht b
  refine ⟨_, _, (w.area t).inferStaged_ends w.launcher w.tools.runtime case o b, ?_⟩
  rw [step, hrun]
  exact hcloses.ledger

/-- Whatever is launched was prepared. -/
theorem Launches.sends (h : w.Launches t b) : ∃ request own fs, w.Sends t b request own fs := by
  rw [Launches] at h
  cases ht : t.task with
  | clear | saveModel _ | saveTensor _ _ _ | recordExternal _ _ _ =>
    exact absurd (step_unlaunched (by simp [ht]) (by simp [ht]) b).2 h
  | compile o =>
    obtain ⟨r, b', hends, -, hledger, -⟩ := step_compile_ends (w := w) ht b
    rw [hledger] at h
    cases hends with
    | refused | unread _ => exact absurd rfl h
    | failed hp | made hp _ _ => exact ⟨_, _, _, .compile ht hp, "compile", hledger⟩
  | infer case o =>
    obtain ⟨r, b', hends, hledger⟩ := step_infer_ends (w := w) ht b
    rw [hledger] at h
    cases hends with
    | refused | unread _ => exact absurd rfl h
    | failed hp _ | unrecorded hp _ | recorded hp _ _ =>
      exact ⟨_, _, _, .infer ht hp, case, hledger⟩

/-- A prepared request runs in the root, which is there, and hands over the artifact among other
paths behind the root. -/
theorem Prepares.gives (h : w.Prepares t b request own fs) :
    request.directory = w.root ∧ fs.Leads [] w.root (location w.root) ∧
      Files.admits w.root Area.artifactName = .ok () ∧
      join w.root Area.artifactName ∈ own ∧
      ∀ path ∈ own, path ∈ request.args ∧ ∃ file, path = join w.root file := by
  cases h with
  | compile ht hp =>
    obtain ⟨hrequest, hs, hadmits, hfrees, file, hfile⟩ :=
      ((w.area t).prepareCompile_ends _ _ _).of_ok hp
    dsimp only at hrequest hfile
    subst hrequest hfile
    refine ⟨rfl, (hfrees.spares.stands hs).leads, Area.admits_artifact hadmits,
      by simp [Area.artifactPath_eq, area], fun path hpath => ?_⟩
    simp only [List.mem_cons, List.not_mem_nil, or_false] at hpath
    rcases hpath with rfl | rfl
    · exact ⟨by simp [ToolCommand.request], file, rfl⟩
    · exact ⟨by simp [ToolCommand.request], _, rfl⟩
  | infer ht hp =>
    obtain ⟨rfl, hf, hs, ⟨hspares, -⟩, -⟩ := ((w.area t).prepareInfer_ends _ _ _ _).of_ok hp
    obtain ⟨-, hadmits, -⟩ := (Files.isFile_join_iff Area.isName_artifact).mp hf
    refine ⟨rfl, (hspares.stands hs).leads, hadmits, List.mem_cons_self, fun path hpath => ?_⟩
    simp only [List.mem_cons, List.not_mem_nil, or_false] at hpath
    rcases hpath with rfl | rfl | rfl
    · exact ⟨by simp [ToolCommand.request], _, rfl⟩
    · exact ⟨by simp [ToolCommand.request], _, rfl⟩
    · exact ⟨by simp [ToolCommand.request], _, rfl⟩

/-- The harness and the tool that it launches name the same places by the paths of the request
exactly when following the root from the directory that it leads to leads there again; then they
agree on whatever stands behind the root. A root that opens with a slash always leads there
again. -/
theorem launched_paths_agree_iff (h : w.Launches t b) :
    ∃ request own fs, w.Sends t b request own fs ∧ request.directory = w.root ∧
      fs.Leads [] w.root (location w.root) ∧
      (∀ path ∈ own, path ∈ request.args ∧ ∃ file, path = join w.root file) ∧
      ∀ (world : Files) (here there : Location), world.Leads here w.root there →
        ((∀ path ∈ own, world.place there path = world.place here path) ↔
          world.Leads there w.root there) ∧
        (world.Leads there w.root there →
          ∀ file, world.place there (join w.root file) = world.place here (join w.root file)) ∧
        (startsWith "/" w.root = true → world.Leads there w.root there) := by
  obtain ⟨request, own, fs, hsent⟩ := h.sends
  obtain ⟨hdirectory, hthere, hadmits, hartifact, hown⟩ := hsent.1.gives
  refine ⟨request, own, fs, hsent, hdirectory, hthere, hown, fun world here there hleads => ?_⟩
  refine ⟨⟨fun hagree => ?_, fun hagain path hpath => ?_⟩, fun hagain file => ?_, fun hr => ?_⟩
  · exact Files.leads_again Area.isName_artifact hadmits hleads (hagree _ hartifact)
  · obtain ⟨-, file, rfl⟩ := hown path hpath
    exact Files.place_join_congr hleads hagain file
  · exact Files.place_join_congr hleads hagain file
  · exact hleads.of_absolute hr there

/-- The runtime is launched in the directory of a plain name. -/
theorem inferring_paths_agree_iff :
    ∃ request own fs,
      rehearsal.Sends inferring (rehearsal.after botched (staging ++ [compiling])) request own fs ∧
      request.directory = rehearsal.root ∧ fs.Leads [] rehearsal.root (location rehearsal.root) ∧
      (∀ path ∈ own, path ∈ request.args ∧ ∃ file, path = join rehearsal.root file) ∧
      ∀ (world : Files) (here there : Location), world.Leads here rehearsal.root there →
        ((∀ path ∈ own, world.place there path = world.place here path) ↔
          world.Leads there rehearsal.root there) ∧
        (world.Leads there rehearsal.root there → ∀ file,
          world.place there (join rehearsal.root file) =
            world.place here (join rehearsal.root file)) ∧
        (startsWith "/" rehearsal.root = true → world.Leads there rehearsal.root there) := by
  obtain ⟨fs, hinfers⟩ := botched_infers
  exact launched_paths_agree_iff hinfers.1

/-- In the directory of a plain name the runtime names another artifact than the harness. -/
theorem inferring_paths_disagree :
    ∃ request own fs,
      rehearsal.Sends inferring (rehearsal.after botched (staging ++ [compiling])) request own fs ∧
      request.directory = rehearsal.root ∧ fs.Leads [] rehearsal.root (location rehearsal.root) ∧
      ∃ path ∈ own, fs.place (location rehearsal.root) path ≠ fs.place [] path := by
  obtain ⟨files, hinfers⟩ := botched_infers
  obtain ⟨request, own, fs, hsent⟩ := hinfers.1.sends
  obtain ⟨hdirectory, hthere, hadmits, hartifact, -⟩ := hsent.1.gives
  have hname : ".." ∉ pieces rehearsal.root := by decide
  refine ⟨request, own, fs, hsent, hdirectory, hthere, _, hartifact, fun hsame => ?_⟩
  have hagain := Files.leads_again Area.isName_artifact hadmits hthere hsame
  exact Files.not_leads_again rfl hname ⟨"w", by decide, rfl⟩ hagain

end Site

end NetTrial
