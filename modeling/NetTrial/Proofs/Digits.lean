import NetTrial.Json.Reader
/-!
# Decimal digits

The digits that a natural is written with spell it, and a number other than zero does not open
with a zero. Readers of documents and of headers share these facts.
-/

namespace NetTrial

open Number Json

/-- The character of a digit. -/
def digitOf (d : Fin 10) : Char := Nat.digitChar d.val

theorem digit?_digitOf (d : Fin 10) : digit? (digitOf d) = some d := by
  revert d
  decide

theorem natOfDigits_concat (ds : List (Fin 10)) (d : Fin 10) :
    natOfDigits (ds ++ [d]) = natOfDigits ds * 10 + d.val := by
  rw [natOfDigits, natOfDigits, List.foldl_append]
  rfl

/-- A natural is written with digits that spell it; only zero opens with a zero. -/
theorem exists_digitsOf (n : Nat) :
    ∃ d ds, digitsOf n = (d :: ds).map digitOf ∧ natOfDigits (d :: ds) = n ∧
      (d.val = 0 → ds = [] ∧ n = 0) := by
  induction n using Nat.strongRecOn with
  | _ n ih =>
    by_cases hn : n < 10
    · refine ⟨⟨n, hn⟩, [], ?_, ?_, fun h => ⟨rfl, h⟩⟩
      · rw [digitsOf, Nat.toDigits_of_lt_base hn]
        rfl
      · simp [natOfDigits]
    · obtain ⟨d, ds, hdigits, hvalue, hzero⟩ := ih (n / 10) (by omega)
      refine ⟨d, ds ++ [⟨n % 10, Nat.mod_lt n (by decide)⟩], ?_, ?_, fun h => ?_⟩
      · rw [digitsOf, Nat.toDigits_of_base_le (by decide) (by omega)]
        rw [digitsOf] at hdigits
        rw [hdigits]
        simp [digitOf]
      · rw [← List.cons_append, natOfDigits_concat, hvalue]
        exact Nat.div_add_mod' n 10
      · have := (hzero h).2
        omega

end NetTrial
