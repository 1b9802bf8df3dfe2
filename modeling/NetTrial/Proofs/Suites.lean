import NetTrial.Proofs.Leftovers
/-!
# The report of a suite

The cases of a suite share one directory to work below, but each of them starts from its own
directory, empty. With tools that are told by the request and the files of its directory alone,
and that write nothing but their output, a case ends in a suite as it ends alone, so the order of
the cases does not matter to any of them. What a report counts are the launches of its case.
-/

namespace NetTrial

open NetTrial.Path NetTrial.Action

/-! ## Tools that stay in their directory -/

namespace Area

/-- What can be seen of an area: the way to its directory, and what is in it. -/
def InView (a : Area) (loc : Location) : Prop := OnPath a.root loc ∨ Files.Inside a.root loc

theorem sees_inView (a : Area) : a.Sees a.InView where
  root _ hl := Or.inl hl
  entry name hn loc hl := by
    rcases onPath_join a.root hn hl with hon | rfl
    · exact Or.inl hon
    · refine Or.inr ?_
      rw [Files.Inside, location_join a.root hn]
      exact List.prefix_append _ _

theorem inside_entry (a : Area) (name : String) :
    Files.Inside a.root (location a.root ++ [name]) := List.prefix_append _ _

theorem prepareCompile_stands {a : Area} {c : ToolCommand} {o : CompileOptions} {fs fs' : Files}
    {prepared : Request × String} (h : (a.prepareCompile c o).run fs = (.ok prepared, fs')) :
    fs'.Stands a.root :=
  (prepareCompile_within h).stands ((a.prepareCompile_ends c o fs).of_ok h).2.1

theorem prepareInfer_stands {a : Area} {case : String} {c : ToolCommand} {o : InferOptions}
    {fs fs' : Files} {request : Request} (hc : '/' ∉ case.toList)
    (h : (a.prepareInfer c case o).run fs = (.ok request, fs')) : fs'.Stands a.root :=
  (prepareInfer_within hc h).stands ((a.prepareInfer_ends c case o fs).of_ok h).2.2.1

end Area

namespace Launcher

variable {σ : Type} {l : Launcher σ} {tools : Toolchain} {a : Area}

/-- Asked in a directory that stands, the launcher answers by the request and by what is in the
directory, and what it leaves there is told by them too, whatever state it is in. -/
def Local (l : Launcher σ) : Prop :=
  ∀ {request : Request} {fs fs' : Files} {t t' : σ}, fs.Stands request.directory →
    fs'.Stands request.directory → fs.Agree (Files.Inside request.directory) fs' →
    (l.launch request fs t).1 = (l.launch request fs' t').1 ∧
      (l.launch request fs t).2.1.Agree (Files.Inside request.directory)
        (l.launch request fs' t').2.1

/-- Where such a launcher changes one entry of the directory only, what can be seen stays the
same. -/
theorem Local.answersAlike (h : l.Local) {request : Request} {fs fs' : Files} {t t' : σ}
    {spot : Location} (hd : request.directory = a.root) (hs : fs.Stands a.root)
    (hs' : fs'.Stands a.root) (hagree : fs.Agree a.InView fs') (hin : Files.Inside a.root spot)
    (ht : fs.Touches spot (l.launch request fs t).2.1)
    (ht' : fs'.Touches spot (l.launch request fs' t').2.1) :
    AnswersAlike a.InView (fun _ _ => True) (l.launch request fs t)
      (l.launch request fs' t') := by
  rw [← hd] at hs hs'
  have hinside : fs.Agree (Files.Inside request.directory) fs' :=
    hagree.mono fun loc hl => Or.inr (hd ▸ hl)
  obtain ⟨hresult, hfiles⟩ := @h request fs fs' t t' hs hs' hinside
  refine ⟨hresult, fun loc hl => ?_, trivial⟩
  by_cases hloc : Files.Inside a.root loc
  · exact hfiles loc (hd ▸ hloc)
  · have hne : loc ≠ spot := fun he => hloc (he ▸ hin)
    rw [ht.same loc hne, ht'.same loc hne, hagree loc hl]

theorem Local.abreast (h : l.Local) (hk : l.KeepsTo tools a.root) :
    l.Abreast l tools a a.InView fun _ _ => True where
  compiler hp hp' hagree _ := by
    have hrequest := ((a.prepareCompile_ends _ _ _).of_ok hp).1
    exact h.answersAlike (congrArg Request.directory hrequest) (Area.prepareCompile_stands hp)
      (Area.prepareCompile_stands hp') hagree (a.inside_entry _) (hk.compiler _ rfl hp)
      (hk.compiler _ rfl hp')
  runtime hc hp hp' hagree _ := by
    have hrequest := ((a.prepareInfer_ends _ _ _ _).of_ok hp).1
    refine h.answersAlike (congrArg Request.directory hrequest) (Area.prepareInfer_stands hc hp)
      (Area.prepareInfer_stands hc hp') hagree ?_ (hk.runtime _ rfl hp) (hk.runtime _ rfl hp')
    rw [Area.candidateSpot_eq hc]
    exact a.inside_entry _
  compilerTidy hp ht :=
    ht.of_spares (hk.compiler _ rfl hp).spares a.artifactSpot_ne_manifestSpot.symm
  runtimeTidy hp ht :=
    ht.of_spares (hk.runtime _ rfl hp).spares (a.candidateSpot_ne_manifestSpot _).symm

/-- Tools that write nothing but their output leave the directory standing. -/
theorem KeepsTo.endures (hk : l.KeepsTo tools a.root) :
    l.Endures tools a fun fs _ => fs.Sound ∧ fs.Stands a.root where
  within hw h := ⟨hw.sound h.1, hw.stands h.2⟩
  compiler {_ _ _ _ _ t} hp h := by
    have hw := (hk.compiler t rfl hp).within h.2
    exact ⟨hw.sound h.1, hw.stands h.2⟩
  runtime {_ _ _ _ _ t} hc hp h := by
    have htouch := hk.runtime t rfl hp
    rw [Area.candidateSpot_eq hc] at htouch
    have hw := htouch.within h.2
    exact ⟨hw.sound h.1, hw.stands h.2⟩

end Launcher

namespace Fixture

variable {σ : Type} {f : Fixture} {s : Setup} {j : Journal} {l : Launcher σ} {b b' : Bench σ}

/-- After a trial there is a place to work in as there was before. -/
theorem Starts.ready {ended : Except Failure Verdict × Bench σ} (h : f.Starts s l b ended)
    (hready : b.files.Ready s.workRoot) (hk : l.KeepsTo s.tools (join s.workRoot f.id)) :
    ended.2.files.Ready s.workRoot := by
  cases h with
  | refused => exact hready
  | blocked _ _ _ hleft => exact hleft
  | @cleared o o' made ha _ hemptied =>
    have hn := isName_of_checkId (admitted_eq_ok.mp ha).2.2
    obtain ⟨hsound, hstands⟩ := carryOn_endures (a := s.area f o'.datasetFormat) (f := f) (s := s)
      (b := { b with files := made }) o o' hk.endures hemptied.stands
      ⟨hemptied.sound, hemptied.stands⟩
    exact Files.ready_of_stands hsound (Files.stands_of_follow_join hn hstands.1)

theorem report_ready (hj : j.path = none) (hready : b.files.Ready s.workRoot)
    (hk : l.KeepsTo s.tools (join s.workRoot f.id)) :
    ((f.report s j l).run b).2.files.Ready s.workRoot := by
  have hstarts := trial_starts (f := f) (l := l) (b := { b with ledger := [] }) hj hready
  rw [report_run]
  exact hstarts.ready hready hk

/-- A fixture is reported on alike wherever there is a place to work in. -/
theorem report_alike (hj : j.path = none) (hready : b.files.Ready s.workRoot)
    (hready' : b'.files.Ready s.workRoot) (hl : l.Local)
    (hk : l.KeepsTo s.tools (join s.workRoot f.id))
    (hd : ∀ o, f.compileOptions = .ok o → o.dataset = none) :
    ((f.report s j l).run b).1 = ((f.report s j l).run b').1 := by
  have hstarts := trial_starts (f := f) (l := l) (b := { b with ledger := [] }) hj hready
  have hstarts' := trial_starts (f := f) (l := l) (b := { b' with ledger := [] }) hj hready'
  obtain ⟨hresult, hledger, -⟩ := hstarts.alike (fun _ _ => True) hstarts' trivial rfl
    Files.Emptied.agree (fun format => (s.area f format).sees_inView)
    (fun format => hl.abreast (a := s.area f format) hk) fun o ho path hpath => by
      rw [hd o ho] at hpath
      cases hpath
  rw [report_run, report_run, hresult, hledger]

end Fixture

/-! ## Launches -/

namespace Launcher

variable {σ : Type} {l : Launcher σ} {b b' b'' : Bench σ}
  {launches later : List (Request × LaunchResult)}

/-- The state of a launcher keeps a log of all launches. -/
def Logs (l : Launcher σ) (log : σ → List (Request × LaunchResult)) : Prop :=
  ∀ request files t,
    log (l.launch request files t).2.2 = log t ++ [(request, (l.launch request files t).1)]

/-- What was launched in a part of a trial, as ledger and log tell it. -/
structure Launched (l : Launcher σ) (launches : List (Request × LaunchResult)) (b b' : Bench σ) :
    Prop where
  /-- The ledger grows by as many. -/
  ledger : b'.ledger.length = b.ledger.length + launches.length
  /-- Every log grows by the launches. -/
  log : ∀ {log}, l.Logs log → log b'.tools = log b.tools ++ launches

theorem launched_nil (hledger : b'.ledger = b.ledger) (htools : b'.tools = b.tools) :
    l.Launched [] b b' :=
  ⟨by rw [hledger]; rfl, fun _ => by rw [htools, List.append_nil]⟩

theorem Launched.trans (h : l.Launched launches b b') (h' : l.Launched later b' b'') :
    l.Launched (launches ++ later) b b'' := by
  refine ⟨?_, fun hlog => ?_⟩
  · rw [h'.ledger, h.ledger, List.length_append, Nat.add_assoc]
  · rw [h'.log hlog, h.log hlog, List.append_assoc]

theorem launched_launch (l : Launcher σ) (request : Request) (note : String) (b : Bench σ)
    (fs : Files) : l.Launched [(request, (Bench.launch l request note { b with files := fs }).1)] b
      (Bench.launch l request note { b with files := fs }).2 := by
  refine ⟨?_, fun hlog => hlog request fs b.tools⟩
  rw [Area.launch_ledger, List.length_append]
  rfl

/-- The compiler is launched once at most, and the runtime once at most after a compiler that ended
with the exit code zero. -/
inductive InTurn : List (Request × LaunchResult) → Prop where
  /-- Nothing is launched. -/
  | none : InTurn []
  /-- The compiler is launched. -/
  | compiler {request : Request} {result : LaunchResult} : request.tool = .compiler →
      InTurn [(request, result)]
  /-- The compiler is launched, and then the runtime. -/
  | runtime {request request' : Request} {outcome : Outcome} {result : LaunchResult} :
      request.tool = .compiler → outcome.exitCode = some 0 → request'.tool = .runtime →
      InTurn [(request, .ok outcome), (request', result)]

theorem InTurn.length_le_two (h : InTurn launches) : launches.length ≤ 2 := by
  cases h <;> simp

end Launcher

open Launcher

namespace Area

variable {σ : Type} {a : Area} {l : Launcher σ} {c : ToolCommand} {case : String} {b b' : Bench σ}

theorem prepareCompile_tool {o : CompileOptions} {fs fs' : Files} {request : Request}
    {path : String} (h : (a.prepareCompile c o).run fs = (.ok (request, path), fs')) :
    request.tool = .compiler :=
  congrArg Request.tool ((a.prepareCompile_ends c o fs).of_ok h).1

theorem prepareInfer_tool {o : InferOptions} {fs fs' : Files} {request : Request}
    (h : (a.prepareInfer c case o).run fs = (.ok request, fs')) : request.tool = .runtime :=
  congrArg Request.tool ((a.prepareInfer_ends c case o fs).of_ok h).1

/-- A compilation that fails launches the compiler once at most. -/
theorem Compiling.launched_of_error {o : CompileOptions} {e : Failure}
    (h : a.Compiling l c o b (.error e) b') : ∃ launches, l.Launched launches b b' ∧
      InTurn launches := by
  cases h with
  | refused | unread _ => exact ⟨[], launched_nil rfl rfl, .none⟩
  | @failed _ request _ fs hp =>
    exact ⟨_, launched_launch l request "compile" b fs, .compiler (prepareCompile_tool hp)⟩

/-- A compilation that succeeds launches the compiler, which ends well. -/
theorem Compiling.launched_of_ok {o : CompileOptions} {compiled : Compiled}
    (h : a.Compiling l c o b (.ok compiled) b') : ∃ request outcome,
      l.Launched [(request, .ok outcome)] b b' ∧ request.tool = .compiler ∧
        outcome.exitCode = some 0 := by
  cases h with
  | @made request _ fs _ hp hsucceeds _ =>
    obtain ⟨outcome, hrun, hgood⟩ := hsucceeds
    have hlaunched := launched_launch l request "compile" b fs
    rw [hrun] at hlaunched
    have hexit : outcome.exitCode = some 0 := by simpa [Outcome.success] using hgood
    exact ⟨request, outcome, hlaunched, prepareCompile_tool hp, hexit⟩

/-- An inference launches the runtime once at most, and once if it succeeds. -/
theorem Inferring.launched {o : InferOptions} {r : Except Failure String}
    (h : a.Inferring l c case o b r b') :
    (∃ request result, l.Launched [(request, result)] b b' ∧ request.tool = .runtime) ∨
      l.Launched [] b b' ∧ ∃ e, r = .error e := by
  cases h with
  | refused | unread _ => exact Or.inr ⟨launched_nil rfl rfl, _, rfl⟩
  | @failed _ request fs hp _ | @unrecorded _ request fs hp _ =>
    exact Or.inl ⟨request, _, launched_launch l request case b fs, prepareInfer_tool hp⟩
  | @recorded request fs _ _ hp _ _ =>
    obtain ⟨hledger, hlog⟩ := launched_launch l request case b fs
    exact Or.inl ⟨request, _, ⟨hledger, hlog⟩, prepareInfer_tool hp⟩

end Area

namespace Fixture

variable {σ : Type} {f : Fixture} {s : Setup} {j : Journal} {l : Launcher σ} {b b' : Bench σ}

/-- The tools are launched in turn, and both of them for a verdict. -/
theorem proceed_launched (f : Fixture) (s : Setup) (l : Launcher σ) (a : Area) (o : CompileOptions)
    (o' : InferOptions) (b : Bench σ) :
    (f.proceed s l a o o').Ends b
      (fun _ b' => ∃ launches, l.Launched launches b b' ∧ InTurn launches)
      fun _ b' => ∃ launches, l.Launched launches b b' ∧ InTurn launches ∧ launches.length = 2 := by
  rw [proceed]
  have hcompiling := a.compileStaged_ends l s.tools.compiler o b
  refine .bind ⟨fun hr => ?_, fun {compiled b₁} hr => ?_⟩
  · rw [hr] at hcompiling
    exact hcompiling.launched_of_error
  rw [hr] at hcompiling
  obtain ⟨request, outcome, hlaunched, htool, hexit⟩ := hcompiling.launched_of_ok
  have hinferring := a.inferStaged_ends l s.tools.runtime f.case o' b₁
  refine .bind ⟨fun hr => ?_, fun {path b₂} hr => ?_⟩
  · rw [hr] at hinferring
    rcases hinferring.launched with ⟨request', result, hlaunched', htool'⟩ | ⟨hlaunched', -⟩
    · exact ⟨_, hlaunched.trans hlaunched', .runtime htool hexit htool'⟩
    · exact ⟨_, hlaunched.trans hlaunched', .compiler htool⟩
  rw [hr] at hinferring
  obtain ⟨request', result, hlaunched', htool'⟩ :=
    hinferring.launched.resolve_right (by rintro ⟨-, e, he⟩; cases he)
  have hboth := hlaunched.trans hlaunched'
  have hturn : InTurn ([(request, .ok outcome)] ++ [(request', result)]) :=
    .runtime htool hexit htool'
  refine .bind (.onBench ((ends_unchanged
    (a.compareStaged_files f.case f.tolerance b₂.files)).mono ?_ ?_))
  · rintro _ _ rfl
    exact ⟨_, hboth, hturn⟩
  rintro comparison _ rfl
  refine .onBench ((ends_unchanged
    (f.judge_files s a o.inferenceType compiled comparison _)).mono ?_ ?_)
  · rintro _ _ rfl
    exact ⟨_, hboth, hturn⟩
  · rintro _ _ rfl
    exact ⟨_, hboth, hturn, rfl⟩

/-- A trial launches the tools in turn, and both of them for a verdict. -/
theorem Starts.launched {ended : Except Failure Verdict × Bench σ} (h : f.Starts s l b ended) :
    ∃ launches, l.Launched launches b ended.2 ∧ InTurn launches ∧
      ∀ verdict, ended.1 = .ok verdict → launches.length = 2 := by
  cases h with
  | refused | blocked => exact ⟨[], launched_nil rfl rfl, .none, fun _ hv => by cases hv⟩
  | @cleared o o' made ha _ _ =>
    rw [carryOn]
    rcases hfill : (f.fill (s.area f o'.datasetFormat)).run made with ⟨e | _, filled⟩
    · rw [run_bind_of_error (by rw [run_onBench, hfill])]
      exact ⟨[], launched_nil rfl rfl, .none, fun _ hv => by cases hv⟩
    rw [run_bind_of_ok (by rw [run_onBench, hfill])]
    have hends := proceed_launched f s l (s.area f o'.datasetFormat)
      (f.calibrated (s.area f o'.datasetFormat) o) o' { b with files := filled }
    rcases hrun : (f.proceed s l (s.area f o'.datasetFormat)
      (f.calibrated (s.area f o'.datasetFormat) o) o').run { b with files := filled } with
      ⟨e | verdict, left⟩
    · obtain ⟨launches, ⟨hledger, hlog⟩, hturn⟩ := hends.of_error hrun
      exact ⟨launches, ⟨hledger, hlog⟩, hturn, fun _ hv => by cases hv⟩
    · obtain ⟨launches, ⟨hledger, hlog⟩, hturn, htwo⟩ := hends.of_ok hrun
      exact ⟨launches, ⟨hledger, hlog⟩, hturn, fun _ _ => htwo⟩

end Fixture

/-! ## Reports -/

namespace CaseReport

/-- A report stands for the end of a run: it is the one that the run gives, or one that tells the
code and the text of its failure. -/
def TellsEnd (report : CaseReport) (id : String) : Except Failure CaseReport → Prop
  | .ok found => report = found
  | .error cause => report.id = id ∧ report.hasPassed = false ∧
      report.reasonCode = cause.reasonCode ∧ report.detail = cause.message

/-- A report accounts for the launches of its case. -/
structure Accounts (report : CaseReport) (launches : List (Request × LaunchResult)) : Prop where
  /-- All launches are counted. -/
  count : report.invocations = launches.length
  /-- There are two at most. -/
  few : report.invocations ≤ 2
  /-- There are two if the case passed. -/
  passed : report.hasPassed = true → report.invocations = 2
  /-- The runtime is launched only after a compiler that ended well. -/
  turn : InTurn launches

end CaseReport

namespace Fixture

variable {σ : Type} {f : Fixture} {s : Setup} {j : Journal} {l : Launcher σ} {b : Bench σ}

theorem report_tellsEnd (f : Fixture) (s : Setup) (j : Journal) (l : Launcher σ) (b : Bench σ) :
    ((f.report s j l).run b).1.TellsEnd f.id ((f.run s j l).run b).1 := by
  rw [report_run, run_run]
  cases ((f.trial s j l).run { b with ledger := [] }).1 with
  | ok verdict => rfl
  | error cause => exact ⟨rfl, rfl, rfl, rfl⟩

theorem report_accounts (hj : j.path = none) (hready : b.files.Ready s.workRoot) :
    ∃ launches, (∀ log, l.Logs log →
        log ((f.report s j l).run b).2.tools = log b.tools ++ launches) ∧
      ((f.report s j l).run b).1.Accounts launches := by
  have hstarts := trial_starts (f := f) (l := l) (b := { b with ledger := [] }) hj hready
  obtain ⟨launches, ⟨hledger, hlog⟩, hturn, htwo⟩ := hstarts.launched
  have hcount : ((f.trial s j l).run { b with ledger := [] }).2.ledger.length =
      launches.length := by
    rw [hledger]
    exact Nat.zero_add _
  rw [report_run]
  refine ⟨launches, fun _ hlogs => hlog hlogs, hcount, hcount ▸ hturn.length_le_two,
    fun hpassed => ?_, hturn⟩
  cases hr : ((f.trial s j l).run { b with ledger := [] }).1 with
  | ok verdict => exact hcount.trans (htwo verdict hr)
  | error cause =>
    rw [hr] at hpassed
    cases hpassed

end Fixture

/-! ## Suites -/

namespace Setup

variable {σ : Type} {s : Setup} {j : Journal} {l : Launcher σ} {b b₀ : Bench σ}
  {fixtures : List Fixture}

theorem runFixtures_cons (s : Setup) (j : Journal) (l : Launcher σ) (f : Fixture)
    (fixtures : List Fixture) (b : Bench σ) :
    (s.runFixtures j l (f :: fixtures)).run b =
      (⟨((f.report s j l).run b).1 ::
          ((s.runFixtures j l fixtures).run ((f.report s j l).run b).2).1.cases⟩,
        ((s.runFixtures j l fixtures).run ((f.report s j l).run b).2).2) := by
  rw [runFixtures, List.mapM_cons]
  rfl

/-- In a suite every fixture is reported on as it is alone. -/
theorem runFixtures_cases (hj : j.path = none) (hready : b.files.Ready s.workRoot)
    (hready₀ : b₀.files.Ready s.workRoot) (hl : l.Local)
    (hk : ∀ f ∈ fixtures, l.KeepsTo s.tools (join s.workRoot f.id))
    (hd : ∀ f ∈ fixtures, ∀ o, f.compileOptions = .ok o → o.dataset = none) :
    ((s.runFixtures j l fixtures).run b).1.cases =
      fixtures.map fun f => ((f.report s j l).run b₀).1 := by
  induction fixtures generalizing b with
  | nil => rfl
  | cons f fixtures ih =>
    have hk' := hk f List.mem_cons_self
    have hrest := ih (Fixture.report_ready hj hready hk')
      (fun g hg => hk g (List.mem_cons_of_mem f hg)) fun g hg => hd g (List.mem_cons_of_mem f hg)
    rw [runFixtures_cons, List.map_cons, ← hrest,
      ← Fixture.report_alike hj hready hready₀ hl hk' (hd f List.mem_cons_self)]

/-- The reports of a suite account for all launches. -/
theorem runFixtures_accounts (hj : j.path = none) (hready : b.files.Ready s.workRoot)
    (hk : ∀ f ∈ fixtures, l.KeepsTo s.tools (join s.workRoot f.id)) :
    ∃ launches : List (List (Request × LaunchResult)),
      (∀ log, l.Logs log → log ((s.runFixtures j l fixtures).run b).2.tools =
        log b.tools ++ launches.flatten) ∧
      List.Forall₂ CaseReport.Accounts ((s.runFixtures j l fixtures).run b).1.cases launches := by
  induction fixtures generalizing b with
  | nil => exact ⟨[], fun _ _ => (List.append_nil _).symm, .nil⟩
  | cons f fixtures ih =>
    obtain ⟨launches, hlog, haccounts⟩ := Fixture.report_accounts (f := f) (l := l) hj hready
    obtain ⟨later, hlogs, hall⟩ := ih (Fixture.report_ready hj hready (hk f List.mem_cons_self))
      fun g hg => hk g (List.mem_cons_of_mem f hg)
    rw [runFixtures_cons]
    refine ⟨launches :: later, fun log h => ?_, .cons haccounts hall⟩
    dsimp only
    rw [hlogs log h, hlog log h, List.flatten_cons, List.append_assoc]

/-- A suite reports on every fixture in order, and on each as on its run alone, from any place to
work in, an empty one for instance. The counts and the lines of failures are those of the reports,
every report counts the launches of its case, and the order of the fixtures is only the order of
the reports. -/
theorem runFixtures_of_local (hj : j.path = none) (hready : b.files.Ready s.workRoot)
    (hready₀ : b₀.files.Ready s.workRoot) (hl : l.Local)
    (hk : ∀ f ∈ fixtures, l.KeepsTo s.tools (join s.workRoot f.id))
    (hd : ∀ f ∈ fixtures, ∀ o, f.compileOptions = .ok o → o.dataset = none) :
    ∃ suite left, (s.runFixtures j l fixtures).run b = (suite, left) ∧
      (Fixture.load b.files s.fixturePath = .ok fixtures →
        (s.runSuite j l).run b = (.ok suite, left)) ∧
      suite.cases = fixtures.map (fun f => ((f.report s j l).run b₀).1) ∧
      (∀ f ∈ fixtures,
        ((f.report s j l).run b₀).1.TellsEnd f.id ((f.run s j l).run b₀).1) ∧
      suite.passCount = (suite.cases.filter CaseReport.hasPassed).length ∧
      suite.failures = (suite.cases.filter fun c => !c.hasPassed).map CaseReport.failureLine ∧
      (suite.allPassed = true ↔ ∀ c ∈ suite.cases, c.hasPassed = true) ∧
      (∃ launches : List (List (Request × LaunchResult)),
        (∀ log, l.Logs log → log left.tools = log b.tools ++ launches.flatten) ∧
        List.Forall₂ CaseReport.Accounts suite.cases launches) ∧
      ∀ fixtures', fixtures.Perm fixtures' →
        suite.cases.Perm ((s.runFixtures j l fixtures').run b).1.cases := by
  have hcases := runFixtures_cases hj hready hready₀ hl hk hd
  refine ⟨((s.runFixtures j l fixtures).run b).1, ((s.runFixtures j l fixtures).run b).2, rfl,
    fun hload => ?_, hcases, fun f _ => f.report_tellsEnd s j l b₀, List.countP_eq_length_filter,
    rfl, SuiteReport.allPassed_iff _, runFixtures_accounts hj hready hk, fun fixtures' hperm => ?_⟩
  · rw [runSuite, run_get_bind, run_settle_bind, hload]
    rfl
  · rw [hcases, runFixtures_cases hj hready hready₀ hl
      (fun f hf => hk f (hperm.mem_iff.mpr hf)) fun f hf => hd f (hperm.mem_iff.mpr hf)]
    exact hperm.map _

end Setup

/-! ## A suite -/

namespace Launcher

/-- Tools that end well, write given bytes to the path that the third argument says if that is the
path of an entry of their directory, and are logged. -/
def couriers (artifact candidate : Text.Bytes) : Launcher (List (Request × LaunchResult)) where
  launch r files log :=
    let path := r.args.getD 2 ""
    let output := match r.tool with
      | .compiler => artifact
      | .runtime => candidate
    let fit := Area.isUnfitName (lastPiece path) = false ∧ path = join r.directory (lastPiece path)
    (.ok ⟨some 0, "", ""⟩, deliver path files (if fit then some output else none),
      log ++ [(r, .ok ⟨some 0, "", ""⟩)])

variable (artifact candidate : Text.Bytes)

theorem couriers_logs : (couriers artifact candidate).Logs id := fun _ _ _ => rfl

theorem couriers_keepsTo {tools : Toolchain} (hc : tools.compiler.leading = [])
    (hr : tools.runtime.leading = []) (root : String) :
    (couriers artifact candidate).KeepsTo tools root :=
  keepsTo_of_delivers hc hr root fun _ _ _ => ⟨_, rfl⟩

/-- Where a directory stands in both, files that agree in it agree on the way to it. -/
theorem agree_inView {a : Area} {fs fs' : Files} (hs : fs.Stands a.root) (hs' : fs'.Stands a.root)
    (h : fs.Agree (Files.Inside a.root) fs') : fs.Agree a.InView fs' := by
  rintro loc (hon | hin)
  · rw [Files.isDirectoryAt_iff.mp (hs.onPath hon), Files.isDirectoryAt_iff.mp (hs'.onPath hon)]
  · exact h loc hin

theorem couriers_local : (couriers artifact candidate).Local := by
  intro request fs fs' _ _ hs hs' hagree
  refine ⟨rfl, ?_⟩
  simp only [couriers]
  by_cases hfit : Area.isUnfitName (lastPiece (request.args.getD 2 "")) = false ∧
      request.args.getD 2 "" = join request.directory (lastPiece (request.args.getD 2 ""))
  · have hview := agree_inView (a := ⟨request.directory, .raw⟩) hs hs' hagree
    have hv : Files.Visible (Area.InView ⟨request.directory, .raw⟩) (request.args.getD 2 "") := by
      rw [hfit.2]
      exact (Area.sees_inView ⟨request.directory, .raw⟩).entry _ (Area.isName_of_fit hfit.1)
    exact (deliver_agree hview hv _).mono fun _ => Or.inr
  · rw [if_neg hfit]
    exact hagree

end Launcher

namespace Setup

open Fixture Launcher

/-- A suite with the same fixture twice. -/
def twice : List Fixture := [idle, { idle with id := "other" }, idle]

theorem twice_compileOptions {f : Fixture} (hf : f ∈ twice) : f.compileOptions = .ok {} := by
  simp only [twice, List.mem_cons, List.not_mem_nil, or_false] at hf
  rcases hf with rfl | rfl | rfl <;> rfl

/-- On files that an earlier run left, each fixture is reported on as from an empty directory, in
any order, and what was launched for each is accounted for. -/
theorem twice_reported :
    ((rehearsalSetup.runFixtures {} (couriers [0] [0, 0, 0x80, 0x3f]) twice).run
      ⟨littered, [], []⟩).1.cases = twice.map (fun f =>
        ((f.report rehearsalSetup {} (couriers [0] [0, 0, 0x80, 0x3f])).run
          ⟨Files.empty.set ["w"] .directory, [], []⟩).1) ∧
    ((rehearsalSetup.runFixtures {} (couriers [0] [0, 0, 0x80, 0x3f]) twice).run
      ⟨littered, [], []⟩).1.cases.Perm
        ((rehearsalSetup.runFixtures {} (couriers [0] [0, 0, 0x80, 0x3f]) twice.reverse).run
          ⟨littered, [], []⟩).1.cases ∧
    ∃ launches : List (List (Request × LaunchResult)),
      ((rehearsalSetup.runFixtures {} (couriers [0] [0, 0, 0x80, 0x3f]) twice).run
        ⟨littered, [], []⟩).2.tools = launches.flatten ∧
      List.Forall₂ CaseReport.Accounts
        ((rehearsalSetup.runFixtures {} (couriers [0] [0, 0, 0x80, 0x3f]) twice).run
          ⟨littered, [], []⟩).1.cases launches := by
  obtain ⟨suite, left, hrun, -, hcases, -, -, -, -, ⟨launches, hlog, haccounts⟩, hperm⟩ :=
    @runFixtures_of_local _ rehearsalSetup {} _ ⟨littered, [], []⟩
      ⟨Files.empty.set ["w"] .directory, [], []⟩ twice rfl
      (Files.ready_of_stands littered_sound ⟨rfl, rfl⟩)
      (Files.ready_of_stands (Files.sound_empty.set rfl rfl _) ⟨rfl, rfl⟩)
      (couriers_local [0] [0, 0, 0x80, 0x3f]) (fun f _ => couriers_keepsTo _ _ rfl rfl _)
      fun f hf o ho => by
        rw [twice_compileOptions hf] at ho
        cases ho
        rfl
  rw [hrun]
  exact ⟨hcases, hperm _ (List.reverse_perm _).symm, launches, hlog id (couriers_logs _ _),
    haccounts⟩

end Setup

end NetTrial
