/-!
# What a computation gives

A computation that may fail has a value when each of its steps has one and no test on the way
refuses. Where it succeeds it is taken apart into its steps; and what holds of its value is put
together from what holds of theirs.
-/

namespace NetTrial

variable {ε α β : Type}

/-! ## Taking apart -/

/-- A computation in two parts has a value when both parts have one. -/
theorem bind_eq_ok_iff {x : Except ε α} {f : α → Except ε β} {b : β} :
    x >>= f = .ok b ↔ ∃ a, x = .ok a ∧ f a = .ok b := by
  cases x with
  | error e => simp [bind, Except.bind]
  | ok a => simp [bind, Except.bind]

/-- What an error is turned into does not matter to a value. -/
theorem mapError_eq_ok_iff {ε' : Type} {x : Except ε α} {f : ε → ε'} {a : α} :
    x.mapError f = .ok a ↔ x = .ok a := by
  constructor
  · intro h
    cases x with
    | error e => cases h
    | ok found =>
      cases h
      rfl
  · rintro rfl
    rfl

section

variable {c : Prop} [Decidable c] {x : Except ε α} {e : ε} {a : α}

/-- A computation behind a test that refuses has a value when the test passes. -/
theorem refuse_eq_ok_iff : (if c then .error e else x) = .ok a ↔ ¬ c ∧ x = .ok a := by
  by_cases hc : c
  · simp [hc]
  · simp [hc]

/-- A computation that a test admits has a value when the test passes. -/
theorem admit_eq_ok_iff : (if c then x else .error e) = .ok a ↔ c ∧ x = .ok a := by
  by_cases hc : c
  · simp [hc]
  · simp [hc]

end

/-! ## Putting together -/

variable {good : α → Prop}

/-- What holds of the value of a computation, if it has one. -/
structure Gives {ε α : Type} (x : Except ε α) (good : α → Prop) : Prop where
  /-- The value is good. -/
  of_ok : ∀ {a}, x = .ok a → good a

theorem gives_ok {a : α} (h : good a) : Gives (.ok a : Except ε α) good := by
  constructor
  intro a' ha
  cases ha
  exact h

theorem gives_error {e : ε} : Gives (.error e : Except ε α) good := by
  constructor
  intro a ha
  cases ha

theorem Gives.bind {x : Except ε β} {f : β → Except ε α} (h : Gives x fun b => Gives (f b) good) :
    Gives (x >>= f) good := by
  cases x with
  | error e => exact gives_error
  | ok b => exact h.of_ok rfl

theorem gives_bind {x : Except ε β} {f : β → Except ε α} (h : ∀ b, Gives (f b) good) :
    Gives (x >>= f) good := .bind ⟨fun _ => h _⟩

theorem Gives.mapError {x : Except ε α} {ε' : Type} (h : Gives x good) (f : ε → ε') :
    Gives (x.mapError f) good := by
  cases x with
  | error e => exact gives_error
  | ok a => exact gives_ok (h.of_ok rfl)

theorem Gives.mono {x : Except ε α} {good' : α → Prop} (h : Gives x good)
    (hgood : ∀ a, good a → good' a) : Gives x good' := ⟨fun hx => hgood _ (h.of_ok hx)⟩

theorem gives_cases {c : Prop} [Decidable c] {x y : Except ε α} (hx : c → Gives x good)
    (hy : ¬ c → Gives y good) : Gives (if c then x else y) good := by
  by_cases hc : c
  · rw [if_pos hc]
    exact hx hc
  · rw [if_neg hc]
    exact hy hc

theorem gives_ite {c : Prop} [Decidable c] {x y : Except ε α} (hx : Gives x good)
    (hy : Gives y good) : Gives (if c then x else y) good := gives_cases (fun _ => hx) fun _ => hy

/-- Nothing more is known of a value than that it is the one. -/
theorem gives_self (x : Except ε α) : Gives x fun a => x = .ok a := ⟨id⟩

end NetTrial
