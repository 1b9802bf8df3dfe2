import NetTrial.Trial.Suite
/-!
# Running actions

An action is opened by running it: sequencing hands the state of a success to what follows
and ends at a failure. A step that takes notes does to the state what some bare action does,
and the journal adds at most one line behind that; without a journal a logged step is the
bare action. The last section reads off an action what holds of every way it can end.
-/

namespace NetTrial

variable {σ α β : Type}

namespace Action

/-! ## Sequencing -/

@[simp] theorem run_pure (a : α) (s : σ) : (pure a : Action σ α).run s = (.ok a, s) := rfl

@[simp] theorem run_throw (e : Failure) (s : σ) :
    (throw e : Action σ α).run s = (.error e, s) := rfl

@[simp] theorem run_get (s : σ) : (get : Action σ σ).run s = (.ok s, s) := rfl

@[simp] theorem run_set (t s : σ) : (set t : Action σ PUnit).run s = (.ok ⟨⟩, t) := rfl

@[simp] theorem run_settle (r : Except Failure α) (s : σ) :
    (settle r : Action σ α).run s = (r, s) := rfl

/-- Actions that do the same in every state are the same. -/
theorem ext_run {x y : Action σ α} (h : ∀ s, x.run s = y.run s) : x = y := funext h

/-- What follows runs on the state that a success leaves. -/
theorem run_bind (x : Action σ α) (f : α → Action σ β) (s : σ) :
    (x >>= f).run s = match x.run s with
      | (.ok a, t) => (f a).run t
      | (.error e, t) => (.error e, t) := by
  change ExceptT.bindCont f (x s).1 (x s).2 = _
  rw [show x.run s = x s from rfl]
  rcases x s with ⟨_ | _, t⟩ <;> rfl

theorem run_bind_of_ok {x : Action σ α} {s t : σ} {a : α} (h : x.run s = (.ok a, t))
    (f : α → Action σ β) : (x >>= f).run s = (f a).run t := by
  rw [run_bind, h]

theorem run_bind_of_error {x : Action σ α} {s t : σ} {e : Failure}
    (h : x.run s = (.error e, t)) (f : α → Action σ β) :
    (x >>= f).run s = (.error e, t) := by
  rw [run_bind, h]

/-- A sequence succeeds when both parts do. -/
theorem run_bind_eq_ok {x : Action σ α} {f : α → Action σ β} {s t : σ} {b : β} :
    (x >>= f).run s = (.ok b, t) ↔
      ∃ a u, x.run s = (.ok a, u) ∧ (f a).run u = (.ok b, t) := by
  rw [run_bind]
  rcases h : x.run s with ⟨e | a, u⟩
  · constructor
    · intro hr
      cases hr
    · rintro ⟨a, u', hx, -⟩
      cases hx
  · constructor
    · intro hr
      exact ⟨a, u, rfl, hr⟩
    · rintro ⟨a', u', hx, hr⟩
      cases hx
      exact hr

/-- A value that is only looked at leaves the run as it is. -/
theorem run_bind_pure (x : Action σ α) (f : α → β) (s : σ) :
    (x >>= fun a => pure (f a)).run s = ((x.run s).1.map f, (x.run s).2) := by
  rw [run_bind]
  rcases x.run s with ⟨_ | _, _⟩ <;> rfl

/-- A settled value is handed on, a settled failure ends the sequence. -/
theorem run_settle_bind (r : Except Failure α) (f : α → Action σ β) (s : σ) :
    (settle r >>= f).run s = match r with
      | .ok a => (f a).run s
      | .error e => (.error e, s) := by
  rw [run_bind, run_settle]
  cases r <;> rfl

theorem run_get_bind (f : σ → Action σ β) (s : σ) : (get >>= f).run s = (f s).run s := by
  rw [run_bind, run_get]

/-! ## Files -/

theorem run_ask (path : String) (question : Files → Except OsError α) (fs : Files) :
    (ask path question).run fs = ((question fs).mapError (.os path), fs) := by
  rw [ask, run_get_bind]
  cases question fs <;> rfl

/-- A change of the files happens or leaves them. -/
theorem run_edit (path : String) (change : Files → Except OsError Files) (fs : Files) :
    (edit path change).run fs = match change fs with
      | .ok fs' => (.ok (), fs')
      | .error cause => (.error (.os path cause), fs) := by
  rw [edit, run_bind, run_ask]
  cases change fs <;> rfl

/-- An edit that ends well leaves what the change made. -/
theorem run_edit_eq_ok {path : String} {change : Files → Except OsError Files} {fs fs' : Files}
    (h : (edit path change).run fs = (.ok (), fs')) : change fs = .ok fs' := by
  rw [run_edit] at h
  cases hc : change fs with
  | ok found =>
    rw [hc] at h
    cases h
    rfl
  | error cause =>
    rw [hc] at h
    cases h

/-- An attempt leaves the files as far as it came. -/
theorem run_attempt (path : String) (change : Files → Except OsError Unit × Files)
    (fs : Files) :
    (attempt path change).run fs = ((change fs).1.mapError (.os path), (change fs).2) := by
  rw [attempt, run_get_bind]
  rcases change fs with ⟨_ | _, t⟩ <;> rfl

@[simp] theorem run_onBench (x : Action Files α) (b : Bench σ) :
    (x.onBench : Action (Bench σ) α).run b =
      ((x.run b.files).1, { b with files := (x.run b.files).2 }) := rfl

end Action

/-! ## Steps and their notes -/

namespace Step

/-- A step that does to the state what an action does, whatever has been noted before. -/
def DoesAs (step : Step σ α) (act : Action σ α) : Prop :=
  ∀ notes s, ((step notes s).1.1, (step notes s).2) = act.run s

theorem DoesAs.pure (a : α) : DoesAs (Pure.pure a : Step σ α) (Pure.pure a) := fun _ _ => rfl

theorem DoesAs.throw (e : Failure) :
    DoesAs (MonadExcept.throw e : Step σ α) (MonadExcept.throw e) := fun _ _ => rfl

theorem DoesAs.act (act : Action σ α) : DoesAs (Step.act act) act := fun _ _ => rfl

theorem DoesAs.bind {step : Step σ α} {act : Action σ α} {next : α → Step σ β}
    {after : α → Action σ β} (h : step.DoesAs act) (hn : ∀ a, (next a).DoesAs (after a)) :
    (step >>= next).DoesAs (act >>= after) := by
  intro notes s
  rw [Action.run_bind, ← h notes s]
  change (let r := (match step notes s with
    | ((a, n), t) => ExceptT.bindCont next a n t); (r.1.1, r.2)) = _
  rcases step notes s with ⟨⟨_ | a, n⟩, t⟩
  · rfl
  · exact hn a n t

theorem DoesAs.of_bind_pure {step : Step σ α} {act : Action σ α}
    (h : step.DoesAs (act >>= Pure.pure)) : step.DoesAs act := by
  rwa [bind_pure] at h

/-- Notes alone do nothing. -/
theorem DoesAs.note_bind (change : Notes → Notes) {step : Step σ α} {act : Action σ α}
    (h : step.DoesAs act) : (Step.note change >>= fun _ => step).DoesAs act :=
  fun notes s => h (change notes) s

theorem DoesAs.ite {c : Prop} [Decidable c] {step step' : Step σ α} {act act' : Action σ α}
    (h : step.DoesAs act) (h' : step'.DoesAs act') :
    (if c then step else step').DoesAs (if c then act else act') := by
  by_cases hc : c
  · rw [if_pos hc, if_pos hc]
    exact h
  · rw [if_neg hc, if_neg hc]
    exact h'

theorem DoesAs.run_run {step : Step σ α} {act : Action σ α} (h : step.DoesAs act) (s : σ) :
    ∃ notes, step.run.run s = (.ok ((act.run s).1, notes), (act.run s).2) := by
  refine ⟨(step {} s).1.2, ?_⟩
  rw [← h {} s]
  rfl

end Step

/-- The code of the failure that a result is, if it is one. -/
def reasonOf {α : Type} : Except Failure α → Option String
  | .ok _ => none
  | .error e => some e.reasonCode

theorem reasonOf_eq_some {α : Type} {r : Except Failure α} {code : String} :
    reasonOf r = some code ↔ ∃ e, r = .error e ∧ e.reasonCode = code := by
  cases r with
  | ok _ => simp [reasonOf]
  | error e => simp [reasonOf]

theorem ok_of_toOption {α : Type} {r : Except Failure α} {value : α}
    (h : r.toOption = some value) : r = .ok value := by
  cases r with
  | ok found =>
    cases h
    rfl
  | error e => cases h

/-! ## The journal -/

namespace Journal

/-- The result of a step whose line was or was not written. -/
def verdict (result : Except Failure α) (written : Except Failure Unit) : Except Failure α :=
  match result, written with
  | .ok value, .ok () => .ok value
  | .ok _, .error cause => .error cause
  | .error cause, _ => .error cause

/-- A logged step succeeds only if the step itself does. -/
theorem verdict_eq_ok {result : Except Failure α} {written : Except Failure Unit} {value : α} :
    verdict result written = .ok value ↔ result = .ok value ∧ written = .ok () := by
  rcases result with _ | _ <;> rcases written with _ | _ <;> simp [verdict]

/-- A line tells the name of a step, and its failure if it failed. -/
structure Tells (line : Line) (step : String) (result : Except Failure α) : Prop where
  /-- The name is told. -/
  step : line.step = step
  /-- The failure is told. -/
  failure : ∀ cause, line.failure = some cause ↔ result = .error cause

theorem close_run (j : Journal) (case step : String) (r : Except Failure α) (n : Notes)
    (fs : Files) :
    ∃ line, Tells line step r ∧ (j.close case step (r, n)).run fs =
      (verdict r ((j.append line).run fs).1, ((j.append line).run fs).2) := by
  cases r with
  | ok value =>
    refine ⟨{ time := j.time, case, step, failure := none, notes := n }, ⟨rfl, by simp⟩, ?_⟩
    simp only [close, ExceptT.run]
    rcases j.append _ fs with ⟨_ | _, _⟩ <;> rfl
  | error cause =>
    refine ⟨{ time := j.time, case, step, failure := some cause, notes := n }, ⟨rfl, by simp⟩, ?_⟩
    rfl

/-- A logged step is a bare action and, whatever its end, one line behind it that tells how the
action ended. -/
def Closes (j : Journal) (step : String) (bare logged : Except Failure α × Files) : Prop :=
  ∃ line, Tells line step bare.1 ∧ logged = (verdict bare.1 ((j.append line).run bare.2).1,
    ((j.append line).run bare.2).2)

/-- A logged step on a bench is a bare action and one line behind it. -/
def ClosesOnBench (j : Journal) (step : String) (bare logged : Except Failure α × Bench σ) : Prop :=
  ∃ line, Tells line step bare.1 ∧
    logged = (verdict bare.1 ((j.append line).run bare.2.files).1,
      { bare.2 with files := ((j.append line).run bare.2.files).2 })

theorem logged_run (j : Journal) (case name : String) {step : Step Files α}
    {act : Action Files α} (h : step.DoesAs act) (fs : Files) :
    j.Closes name (act.run fs) ((j.logged case name step).run fs) := by
  obtain ⟨notes, hrun⟩ := h.run_run fs
  rw [logged, Action.run_bind_of_ok hrun]
  exact j.close_run case name _ notes _

theorem loggedOnBench_run (j : Journal) (case name : String) {step : Step (Bench σ) α}
    {act : Action (Bench σ) α} (h : step.DoesAs act) (b : Bench σ) :
    j.ClosesOnBench name (act.run b) ((j.loggedOnBench case name step).run b) := by
  obtain ⟨notes, hrun⟩ := h.run_run b
  obtain ⟨line, htells, hclose⟩ := j.close_run case name (act.run b).1 notes (act.run b).2.files
  refine ⟨line, htells, ?_⟩
  rw [loggedOnBench, Action.run_bind_of_ok hrun, Action.run_onBench, hclose]

theorem verdict_written (result : Except Failure α) : verdict result (.ok ()) = result := by
  cases result <;> rfl

/-- A journal that is not kept writes nothing. -/
theorem append_silent {j : Journal} (hj : j.path = none) (line : Line) (fs : Files) :
    (j.append line).run fs = (.ok (), fs) := by
  rw [append, hj]
  rfl

/-- Without a journal a logged step is the bare action. -/
theorem Closes.silent {j : Journal} {step : String} {bare logged : Except Failure α × Files}
    (h : j.Closes step bare logged) (hj : j.path = none) : logged = bare := by
  obtain ⟨line, -, hl⟩ := h
  rw [hl, append_silent hj, verdict_written]

theorem ClosesOnBench.silent {j : Journal} {step : String}
    {bare logged : Except Failure α × Bench σ} (h : j.ClosesOnBench step bare logged)
    (hj : j.path = none) : logged = bare := by
  obtain ⟨line, -, hl⟩ := h
  rw [hl, append_silent hj, verdict_written]

end Journal

/-! ## How an action ends -/

namespace Action

/-- What holds of the failure or of the value that an action ends with, and of the state that it
leaves. -/
structure Ends (act : Action σ α) (s : σ) (failed : Failure → σ → Prop)
    (done : α → σ → Prop) : Prop where
  /-- What holds after a failure. -/
  of_error : ∀ {e t}, act.run s = (.error e, t) → failed e t
  /-- What holds after a success. -/
  of_ok : ∀ {a t}, act.run s = (.ok a, t) → done a t

variable {s t : σ} {failed : Failure → σ → Prop} {done : α → σ → Prop} {next : β → σ → Prop}

theorem ends_ok {act : Action σ α} {a : α} (hr : act.run s = (.ok a, t)) (h : done a t) :
    act.Ends s failed done := by
  constructor
  · intro e t' he
    rw [hr] at he
    cases he
  · intro a' t' ha
    rw [hr] at ha
    cases ha
    exact h

theorem ends_error {act : Action σ α} {e : Failure} (hr : act.run s = (.error e, t))
    (h : failed e t) : act.Ends s failed done := by
  constructor
  · intro e' t' he
    rw [hr] at he
    cases he
    exact h
  · intro a t' ha
    rw [hr] at ha
    cases ha

theorem ends_pure {a : α} (h : done a s) : (pure a : Action σ α).Ends s failed done :=
  ends_ok (run_pure a s) h

theorem ends_throw {e : Failure} (h : failed e s) : (throw e : Action σ α).Ends s failed done :=
  ends_error (run_throw e s) h

theorem ends_settle {r : Except Failure α} (herror : ∀ e, r = .error e → failed e s)
    (hok : ∀ a, r = .ok a → done a s) : (settle r).Ends s failed done := by
  cases r with
  | error e => exact ends_error (run_settle _ s) (herror e rfl)
  | ok a => exact ends_ok (run_settle _ s) (hok a rfl)

/-- A sequence ends well when what follows does, on the state and value of the first part. -/
theorem Ends.bind {x : Action σ α} {f : α → Action σ β}
    (h : x.Ends s failed fun a t => (f a).Ends t failed next) :
    (x >>= f).Ends s failed next := by
  rcases hx : x.run s with ⟨e | a, t⟩
  · exact ends_error (run_bind_of_error hx f) (h.of_error hx)
  · have hnext := h.of_ok hx
    constructor
    · intro e t' he
      rw [run_bind_of_ok hx] at he
      exact hnext.of_error he
    · intro b t' hb
      rw [run_bind_of_ok hx] at hb
      exact hnext.of_ok hb

theorem ends_get_bind {f : σ → Action σ α} (h : (f s).Ends s failed done) :
    (get >>= f).Ends s failed done := .bind (ends_ok (run_get s) h)

theorem ends_ite {c : Prop} [Decidable c] {x y : Action σ α} (hx : c → x.Ends s failed done)
    (hy : ¬ c → y.Ends s failed done) : (if c then x else y).Ends s failed done := by
  by_cases hc : c
  · rw [if_pos hc]
    exact hx hc
  · rw [if_neg hc]
    exact hy hc

/-- A guard fails on the state that it looks at or lets the rest start from it. -/
theorem ends_guard {c : Prop} [Decidable c] {e : Failure} {f : β → Action σ α} {y : Action σ α}
    (hx : c → failed e s) (hy : ¬ c → y.Ends s failed done) :
    (if c then throw e >>= f else y).Ends s failed done :=
  ends_ite (fun hc => .bind (ends_throw (hx hc))) hy

/-- What is known of every way to end is known of the run. -/
theorem Ends.run {act : Action σ α} {ended : Except Failure α → σ → Prop}
    (h : act.Ends s (fun e => ended (.error e)) fun a => ended (.ok a)) :
    ended (act.run s).1 (act.run s).2 := by
  rcases hr : act.run s with ⟨e | a, t⟩
  · exact h.of_error hr
  · exact h.of_ok hr

/-- An action on the files ends on a bench as it ends on the files. -/
theorem Ends.onBench {act : Action Files α} {b : Bench σ} {failed : Failure → Bench σ → Prop}
    {done : α → Bench σ → Prop} (h : act.Ends b.files (fun e fs => failed e { b with files := fs })
      fun a fs => done a { b with files := fs }) : act.onBench.Ends b failed done := by
  rcases hr : act.run b.files with ⟨e | a, t⟩
  · exact ends_error (by rw [run_onBench, hr]) (h.of_error hr)
  · exact ends_ok (by rw [run_onBench, hr]) (h.of_ok hr)

/-- What holds of the state that an action leaves holds of it however the action ends. -/
theorem ends_of_left {act : Action σ α} {kept : σ → Prop} (h : kept (act.run s).2) :
    act.Ends s (fun _ => kept) fun _ => kept := by
  constructor
  · intro e t hr
    rw [hr] at h
    exact h
  · intro a t hr
    rw [hr] at h
    exact h

/-- An action that changes nothing ends where it started. -/
theorem ends_unchanged {act : Action σ α} (h : (act.run s).2 = s) :
    act.Ends s (fun _ t => t = s) fun _ t => t = s := ends_of_left h

/-- What holds of the state however an action ends holds of the state that it leaves. -/
theorem Ends.left {act : Action σ α} {kept : σ → Prop}
    (h : act.Ends s (fun _ => kept) fun _ => kept) : kept (act.run s).2 := by
  rcases hr : act.run s with ⟨e | a, t⟩
  · exact h.of_error hr
  · exact h.of_ok hr

theorem Ends.mono {failed' : Failure → σ → Prop} {done' : α → σ → Prop} {act : Action σ α}
    (h : act.Ends s failed done) (herror : ∀ e t, failed e t → failed' e t)
    (hok : ∀ a t, done a t → done' a t) : act.Ends s failed' done' :=
  ⟨fun hr => herror _ _ (h.of_error hr), fun hr => hok _ _ (h.of_ok hr)⟩

end Action

end NetTrial
