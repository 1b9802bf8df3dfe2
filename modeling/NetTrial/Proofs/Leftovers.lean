import NetTrial.Proofs.ParallelTrials
/-!
# Nothing is left over

A trial begins with clearing its directory, and what is there afterwards is told by the path of
the directory. So a trial ends in the same way whatever an earlier one left there, and outside of
the directory nothing is changed but by what the launched tools do.
-/

namespace NetTrial

open NetTrial.Path NetTrial.Action

namespace Files

variable {fs fs' made made' : Files} {root name : String} {loc : Location}

/-- The location of a directory, or one in it. -/
def Inside (root : String) (loc : Location) : Prop := location root <+: loc

/-- A location that is neither that of a directory nor in it. -/
def Outside (root : String) (loc : Location) : Prop := ¬ Inside root loc

/-- Files that are the same everywhere. -/
def Same (fs fs' : Files) : Prop := fs.Agree (fun _ => True) fs'

theorem agree_set {spot : Location} (hne : spot ≠ []) (hin : Inside root spot) (node : Node) :
    fs.Agree (Outside root) (fs.set spot node) := by
  intro loc hout
  rw [get?_set fs hne, if_neg]
  rintro rfl
  exact hout hin

/-- In an emptied directory and on the way to it there is only the way. -/
theorem Emptied.agree (h : fs.Emptied root made) (h' : fs'.Emptied root made') :
    made.Agree (fun loc => OnPath root loc ∨ Inside root loc) made' := by
  intro loc hl
  by_cases hon : OnPath root loc
  · rw [isDirectoryAt_iff.mp (h.stands.onPath hon), isDirectoryAt_iff.mp (h'.stands.onPath hon)]
  · have hin := hl.resolve_left hon
    rw [h.within loc hon hin, h'.within loc hon hin]

/-- Directories emptied in files that differ only in them are the same. -/
theorem Emptied.same (h : fs.Emptied root made) (h' : fs'.Emptied root made')
    (hagree : fs.Agree (Outside root) fs') : made.Same made' := by
  intro loc _
  by_cases hl : OnPath root loc ∨ Inside root loc
  · exact h.agree h' loc hl
  · obtain ⟨hoff, hout⟩ := not_or.mp hl
    rw [h.elsewhere loc hoff hout, h'.elsewhere loc hoff hout, hagree loc hout]

/-- Emptying an entry of a standing directory changes nothing outside of it. -/
theorem Emptied.outside {top : String} (h : fs.Emptied (join top name) made) (hn : IsName name)
    (hs : fs.Stands top) : fs.Agree (Outside (join top name)) made := by
  intro loc hout
  by_cases hon : OnPath (join top name) loc
  · rcases onPath_join top hn hon with htop | rfl
    · rw [isDirectoryAt_iff.mp (hs.onPath htop), isDirectoryAt_iff.mp (h.stands.onPath hon)]
    · exact absurd List.prefix_rfl hout
  · exact (h.elsewhere loc hon hout).symm

end Files

namespace Area

variable {a : Area} {seen : Location → Prop} {fs made : Files}

theorem sees_all (a : Area) : a.Sees fun _ => True := ⟨fun _ _ => trivial, fun _ _ _ _ => trivial⟩

theorem tidy_all (a : Area) (fs : Files) : a.Tidy (fun _ => True) fs :=
  ⟨fun _ _ _ _ _ _ => trivial, fun _ _ _ _ _ _ => trivial⟩

/-- There is no manifest in an emptied directory. -/
theorem tidy_of_emptied (h : fs.Emptied a.root made) : a.Tidy seen made := by
  have hunsaid : ∀ m, ¬ a.Says made m := by
    rintro m ⟨bytes, cs, hg, -⟩
    by_cases hon : OnPath a.root a.manifestSpot
    · rw [Files.isDirectoryAt_iff.mp (h.stands.onPath hon)] at hg
      cases hg
    · rw [h.within _ hon (List.prefix_append _ _)] at hg
      cases hg
  exact ⟨fun m h => absurd h (hunsaid m), fun m h => absurd h (hunsaid m)⟩

end Area

namespace Launcher

variable {σ : Type} {l : Launcher σ} {related : σ → σ → Prop}

/-- Asked the same of the same files, the launcher gives the same answer and leaves the same files.
The states that it is in may differ in what does not matter to it: they are related before and
after. What depends only on the request and on the files of its directory is of this kind. -/
def Repeats (l : Launcher σ) (related : σ → σ → Prop) : Prop :=
  ∀ {request : Request} {fs fs' : Files} {t t' : σ}, fs.Same fs' → related t t' →
    AnswersAlike (fun _ => True) related (l.launch request fs t) (l.launch request fs' t')

theorem Repeats.abreast (h : l.Repeats related) (tools : Toolchain) (a : Area) :
    l.Abreast l tools a (fun _ => True) related where
  compiler _ _ hfs ht := h hfs ht
  runtime _ _ _ hfs ht := h hfs ht
  compilerTidy _ _ := a.tidy_all _
  runtimeTidy _ _ := a.tidy_all _

/-- What is delivered by a path in sight is delivered alike. -/
theorem deliver_agree {seen : Location → Prop} {fs fs' : Files} {path : String}
    (h : fs.Agree seen fs') (hv : Files.Visible seen path) (output : Option Text.Bytes) :
    (deliver path fs output).Agree seen (deliver path fs' output) := by
  cases output with
  | none => exact h
  | some bytes =>
    have hwrite := h.write hv bytes
    simp only [deliver]
    generalize fs.write path bytes = written at hwrite
    generalize fs'.write path bytes = written' at hwrite
    cases hwrite with
    | refused _ => exact h
    | made hmade => exact hmade

/-- Rehearsed tools give the answers that are left in the same order. -/
theorem rehearsed_repeats : rehearsed.Repeats Eq := by
  rintro request fs fs' answers _ hsame rfl
  exact ⟨rfl, deliver_agree hsame (fun _ _ => trivial) _, rfl⟩

/-- What comes of files and of the state of a launcher by changes in a directory and by launches
for the directory: outside of it only the launches change anything. -/
inductive Confined (l : Launcher σ) (root : String) (fs : Files) (t : σ) : Files → σ → Prop where
  /-- Nothing has happened. -/
  | start : Confined l root fs t fs t
  /-- Something is changed in the directory. -/
  | inside {before after : Files} {u : σ} : Confined l root fs t before u →
      before.Agree (Files.Outside root) after → Confined l root fs t after u
  /-- A tool is launched for the directory. -/
  | launched {before : Files} {u : σ} {request : Request} : Confined l root fs t before u →
      request.directory = root →
      Confined l root fs t (l.launch request before u).2.1 (l.launch request before u).2.2

theorem confined_endures (l : Launcher σ) (tools : Toolchain) (a : Area) (fs : Files) (t : σ) :
    l.Endures tools a (l.Confined a.root fs t) where
  within hwithin h := h.inside fun loc hout => (hwithin.elsewhere loc hout).symm
  compiler {o before _ _ _ _} hp h := by
    have hrequest := ((a.prepareCompile_ends tools.compiler o before).of_ok hp).1
    exact h.launched (congrArg Request.directory hrequest)
  runtime {case o before _ _ _} _ hp h := by
    have hrequest := ((a.prepareInfer_ends tools.runtime case o before).of_ok hp).1
    exact h.launched (congrArg Request.directory hrequest)

end Launcher

namespace Fixture

variable {σ : Type} {f : Fixture} {s : Setup} {j : Journal} {l : Launcher σ} {b b' : Bench σ}

/-- Where there is a place to work in, a trial is refused, or goes on from the emptied directory of
its case. -/
inductive Starts (f : Fixture) (s : Setup) (l : Launcher σ) (b : Bench σ) :
    Except Failure Verdict × Bench σ → Prop where
  /-- The trial is refused and changes nothing. -/
  | refused (cause : Failure) : f.admitted = .error cause → Starts f s l b (.error cause, b)
  /-- The directory is not cleared, though the one that it is in may be made. -/
  | blocked {o : CompileOptions} {o' : InferOptions} {left : Files} (cause : OsError) :
      f.admitted = .ok (o, o') → Files.admits s.workRoot f.id = .error cause →
      left.Ready s.workRoot → (b.files.Stands s.workRoot → left = b.files) →
      Starts f s l b (.error (.os (join s.workRoot f.id) cause), { b with files := left })
  /-- The directory is empty. -/
  | cleared {o : CompileOptions} {o' : InferOptions} {made : Files} :
      f.admitted = .ok (o, o') → Files.admits s.workRoot f.id = .ok () →
      b.files.Emptied (join s.workRoot f.id) made →
      Starts f s l b ((f.carryOn s l (s.area f o'.datasetFormat) o o').run
        { b with files := made })

theorem trial_starts (hj : j.path = none) (hready : b.files.Ready s.workRoot) :
    f.Starts s l b ((f.trial s j l).run b) := by
  rw [trial_silent hj]
  cases ha : f.admitted with
  | error e => exact .refused e ha
  | ok options =>
    obtain ⟨o, o'⟩ := options
    have hn := isName_of_checkId (admitted_eq_ok.mp ha).2.2
    simp only
    cases hadmits : Files.admits s.workRoot f.id with
    | error e =>
      obtain ⟨left, hreset, hleft, -, hsame⟩ :=
        (s.area f o'.datasetFormat).reset_refused hready hn hadmits rfl
      rw [run_bind_of_error (by rw [run_onBench, hreset])]
      exact .blocked e ha hadmits hleft hsame
    | ok _ =>
      obtain ⟨made, hreset, hemptied⟩ :=
        (s.area f o'.datasetFormat).reset_emptied hready hn hadmits rfl
      rw [run_bind_of_ok (by rw [run_onBench, hreset])]
      exact .cleared ha hadmits hemptied

/-- What is left of a trial comes of what was there by launches for its directory and changes in
it. -/
theorem Starts.confined {ended : Except Failure Verdict × Bench σ} (h : f.Starts s l b ended)
    (hw : b.files.Stands s.workRoot) :
    l.Confined (join s.workRoot f.id) b.files b.tools ended.2.files ended.2.tools := by
  cases h with
  | refused => exact .start
  | blocked _ _ _ _ hsame =>
    rw [hsame hw]
    exact .start
  | @cleared o o' made ha _ hemptied =>
    have hn := isName_of_checkId (admitted_eq_ok.mp ha).2.2
    exact carryOn_endures (a := s.area f o'.datasetFormat) o o'
      (l.confined_endures s.tools _ b.files b.tools) hemptied.stands
      (.inside .start (hemptied.outside hn hw))

/-- Two trials end in the same way when their directories are seen as the same once they are empty
and the launchers keep abreast. -/
theorem Starts.alike {seen : Location → Prop} (related : σ → σ → Prop)
    {ended ended' : Except Failure Verdict × Bench σ} (h : f.Starts s l b ended)
    (h' : f.Starts s l b' ended') (htools : related b.tools b'.tools)
    (hledger : b.ledger = b'.ledger)
    (hmade : ∀ {made made'}, b.files.Emptied (join s.workRoot f.id) made →
      b'.files.Emptied (join s.workRoot f.id) made' → made.Agree seen made')
    (hsees : ∀ format, (s.area f format).Sees seen)
    (hl : ∀ format, l.Abreast l s.tools (s.area f format) seen related)
    (hd : ∀ o, f.compileOptions = .ok o → ∀ path, o.dataset = some path →
      Files.Visible seen path) :
    ended.1 = ended'.1 ∧ ended.2.ledger = ended'.2.ledger ∧
      ((∃ options, f.admitted = .ok options) → Files.admits s.workRoot f.id = .ok () →
        ended.2.files.Agree seen ended'.2.files) := by
  cases h with
  | refused e ha =>
    have hno : ¬ ∃ options, f.admitted = .ok options := by
      rintro ⟨options, ho⟩
      rw [ha] at ho
      cases ho
    cases h' with
    | refused e' ha' =>
      rw [ha] at ha'
      cases ha'
      exact ⟨rfl, hledger, fun ho => absurd ho hno⟩
    | blocked _ ho | cleared ho => exact absurd ⟨_, ho⟩ hno
  | blocked e ha hadmits =>
    cases h' with
    | refused e' ha' =>
      rw [ha] at ha'
      cases ha'
    | blocked e' _ hadmits' =>
      rw [hadmits] at hadmits'
      cases hadmits'
      refine ⟨rfl, hledger, fun _ ho => ?_⟩
      rw [hadmits] at ho
      cases ho
    | cleared _ ho =>
      rw [hadmits] at ho
      cases ho
  | @cleared o o' made ha hadmits hemptied =>
    cases h' with
    | refused e' ha' =>
      rw [ha] at ha'
      cases ha'
    | blocked e' _ hadmits' =>
      rw [hadmits] at hadmits'
      cases hadmits'
    | @cleared _ _ made' ha' _ hemptied' =>
      rw [ha] at ha'
      cases ha'
      have hlevel : Bench.Level seen related { b with files := made } { b' with files := made' } :=
        ⟨hmade hemptied hemptied', htools, hledger⟩
      have hcarry := carryOn_alongside (f := f) (s := s) hlevel (hsees o'.datasetFormat)
        (Area.tidy_of_emptied hemptied) hemptied.stands (hl o'.datasetFormat)
        (hd o (admitted_eq_ok.mp ha).1) o'
      exact ⟨hcarry.result, hcarry.left.ledger, fun _ _ => hcarry.left.files⟩

/-- A directory that is cleared may be worked in. -/
theorem admits_of_clear {o' : InferOptions} (hj : j.path = none) (hs : b.files.Sound)
    (hw : b.files.Stands s.workRoot) (hid : f.checkId = .ok ())
    (h : (((s.area f o'.datasetFormat).clear j).run b.files).1 = .ok ()) :
    Files.admits s.workRoot f.id = .ok () := by
  cases hadmits : Files.admits s.workRoot f.id with
  | ok _ => rfl
  | error e =>
    obtain ⟨left, hreset, -⟩ := (s.area f o'.datasetFormat).reset_refused
      (Files.ready_of_stands hs hw) (isName_of_checkId hid) hadmits rfl
    rw [Area.clear_silent hj, hreset] at h
    cases h

/-- A trial ends in the same way whatever is left in the directory of its case, be that a file or
a directory with anything in it. Where the directory was cleared, the files are the same in the
end, and outside of it only the launches change anything. -/
theorem run_of_leftovers {related : σ → σ → Prop} (hj : j.path = none) (hs : b.files.Sound)
    (hs' : b'.files.Sound) (hw : b.files.Stands s.workRoot) (hw' : b'.files.Stands s.workRoot)
    (hagree : b.files.Agree (Files.Outside (join s.workRoot f.id)) b'.files)
    (htools : related b.tools b'.tools) (hl : l.Repeats related) :
    ((f.run s j l).run b).1 = ((f.run s j l).run b').1 ∧
    (∀ o o', f.compileOptions = .ok o → f.inferOptions = .ok o' → f.checkId = .ok () →
      (((s.area f o'.datasetFormat).clear j).run b.files).1 = .ok () →
        ((f.run s j l).run b).2.files.Same ((f.run s j l).run b').2.files) ∧
    l.Confined (join s.workRoot f.id) b.files b.tools ((f.run s j l).run b).2.files
      ((f.run s j l).run b).2.tools ∧
    l.Confined (join s.workRoot f.id) b'.files b'.tools ((f.run s j l).run b').2.files
      ((f.run s j l).run b').2.tools := by
  have hstarts := trial_starts (f := f) (l := l) (b := { b with ledger := [] }) hj
    (Files.ready_of_stands hs hw)
  have hstarts' := trial_starts (f := f) (l := l) (b := { b' with ledger := [] }) hj
    (Files.ready_of_stands hs' hw')
  obtain ⟨hresult, hledger, hsame⟩ := hstarts.alike related hstarts' htools rfl
    (fun hmade hmade' => hmade.same hmade' hagree) (fun format => (s.area f format).sees_all)
    (fun format => hl.abreast s.tools _) fun _ _ _ _ _ _ => trivial
  rw [run_run, run_run]
  refine ⟨?_, fun o o' ho ho' hid hclear => ?_, hstarts.confined hw, hstarts'.confined hw'⟩
  · dsimp only
    rw [hresult, hledger]
  · exact hsame ⟨(o, o'), admitted_eq_ok.mpr ⟨ho, ho', hid⟩⟩ (admits_of_clear hj hs hw hid hclear)

/-- A directory with a file where the directory of a case is to be. -/
def obstructed : Files :=
  (Files.empty.set ["w"] .directory).set ["w", "idle"] (.file [0])

/-- A directory with a manifest of before, and a directory in the place of the artifact. -/
def littered : Files :=
  (((Files.empty.set ["w"] .directory).set ["w", "idle"] .directory).set
    ["w", "idle", "manifest.json"] (.file [0])).set ["w", "idle", "model.kmodel"] .directory

theorem obstructed_sound : obstructed.Sound :=
  (Files.sound_empty.set rfl rfl _).set (by decide) (by decide) _

theorem littered_sound : littered.Sound :=
  (((Files.sound_empty.set rfl rfl _).set (by decide) (by decide) _).set (by decide)
    (by decide) _).set (by decide) (by decide) _

theorem obstructed_agree_littered : obstructed.Agree (Files.Outside "w/idle") littered := by
  have hinside : ∀ fs rest node,
      Files.Agree (Files.Outside "w/idle") fs (fs.set (["w", "idle"] ++ rest) node) :=
    fun fs rest _ => Files.agree_set (List.cons_ne_nil _ _) ⟨rest, rfl⟩ _
  have hobstructed := (hinside (Files.empty.set ["w"] .directory) [] (.file [0])).symm
  exact (hobstructed.trans (hinside _ [] _)).trans
    ((hinside _ ["manifest.json"] _).trans (hinside _ ["model.kmodel"] _))

/-- The trial of the model without operations ends in the same way in both, with the same files. -/
theorem idle_run_of_leftovers :
    ((idle.run rehearsalSetup {} .rehearsed).run { idleBench with files := obstructed }).1 =
      ((idle.run rehearsalSetup {} .rehearsed).run { idleBench with files := littered }).1 ∧
    ((idle.run rehearsalSetup {} .rehearsed).run
      { idleBench with files := obstructed }).2.files.Same
        ((idle.run rehearsalSetup {} .rehearsed).run
          { idleBench with files := littered }).2.files := by
  obtain ⟨hresult, hfiles, -⟩ := @run_of_leftovers _ idle rehearsalSetup {} .rehearsed
    { idleBench with files := obstructed } { idleBench with files := littered } Eq rfl
    obstructed_sound littered_sound ⟨rfl, rfl⟩ ⟨rfl, rfl⟩ obstructed_agree_littered rfl
    Launcher.rehearsed_repeats
  exact ⟨hresult, hfiles {} {} rfl rfl rfl rfl⟩

end Fixture

end NetTrial
