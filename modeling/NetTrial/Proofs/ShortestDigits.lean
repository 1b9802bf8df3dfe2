import NetTrial.Proofs.Intervals
/-!
# What the fewest digits are

The decimal that a finite number is written with lies in the interval of the number, and it is one
of the number's two neighbours on some decimal grid. A single needs nine digits at most.
-/

namespace NetTrial.Number

/-- The number that some digits and a power of ten make. -/
def decimal (digits : Nat) (power : Int) : ℚ := digits * 10 ^ power

/-- The number that a decimal stands for. -/
def Decimal.value (d : Decimal) : ℚ := decimal d.digits d.exponent

theorem ten_zpow_pos (k : Int) : (0 : ℚ) < 10 ^ k := zpow_pos (by norm_num) k

theorem powerOfTen_cast (k : Nat) : (powerOfTen k : ℚ) = 10 ^ k := by
  change ((10 ^ k : Nat) : ℚ) = 10 ^ k
  exact Nat.cast_pow 10 k

theorem zpow_eq_div (b : ℚ) (k : Int) : b ^ k = b ^ k.toNat / b ^ (-k).toNat := by
  rcases le_total 0 k with h | h
  · obtain ⟨n, rfl⟩ := Int.eq_ofNat_of_zero_le h
    simp
  · obtain ⟨n, hn⟩ := Int.eq_ofNat_of_zero_le (Int.neg_nonneg.mpr h)
    obtain rfl : k = -(n : Int) := by omega
    simp

/-- A mantissa with a power of two and digits with a power of ten are compared after both are scaled
by the two denominators. -/
theorem dyadic_cmp_decimal (a b : Nat) (x y : Int) :
    ((scaleUp a x * powerOfTen (-y).toNat : Nat) : ℚ) =
        dyadic a x * (2 ^ (-x).toNat * 10 ^ (-y).toNat) ∧
      ((scaleUp (b * powerOfTen y.toNat) (-x) : Nat) : ℚ) =
        decimal b y * (2 ^ (-x).toNat * 10 ^ (-y).toNat) := by
  constructor
  · rw [Nat.cast_mul, scaleUp_cast, powerOfTen_cast, dyadic, zpow_eq_div 2 x]
    field_simp
  · rw [scaleUp_cast, Nat.cast_mul, powerOfTen_cast, decimal, zpow_eq_div 10 y]
    field_simp

theorem dyadic_le_decimal_iff {a b : Nat} {x y : Int} :
    scaleUp a x * powerOfTen (-y).toNat ≤ scaleUp (b * powerOfTen y.toNat) (-x) ↔
      dyadic a x ≤ decimal b y := by
  obtain ⟨h1, h2⟩ := dyadic_cmp_decimal a b x y
  rw [← Nat.cast_le (α := ℚ), h1, h2, mul_le_mul_iff_left₀ (by positivity)]

theorem decimal_le_dyadic_iff {a b : Nat} {x y : Int} :
    scaleUp (b * powerOfTen y.toNat) (-x) ≤ scaleUp a x * powerOfTen (-y).toNat ↔
      decimal b y ≤ dyadic a x := by
  obtain ⟨h1, h2⟩ := dyadic_cmp_decimal a b x y
  rw [← Nat.cast_le (α := ℚ), h1, h2, mul_le_mul_iff_left₀ (by positivity)]

namespace Interval

variable {i : Interval} {digits : Nat} {power : Int}

/-- The number of an interval. -/
def number (i : Interval) : ℚ := dyadic i.centre i.exponent

/-- A grid point is said to round to the number when it lies in the interval. -/
theorem holds_iff : i.holds digits power = true ↔ i.Contains (decimal digits power) := by
  have hlt : ∀ a b : Nat, a < b ↔ ¬ b ≤ a := fun a b => Nat.not_le.symm
  rw [holds, Contains]
  by_cases hc : i.closed = true
  · rw [if_pos hc, if_pos hc, Bool.and_eq_true, decide_eq_true_iff, decide_eq_true_iff]
    exact and_congr dyadic_le_decimal_iff decimal_le_dyadic_iff
  · rw [if_neg hc, if_neg hc, Bool.and_eq_true, decide_eq_true_iff, decide_eq_true_iff]
    refine and_congr ?_ ?_
    · rw [hlt, ← not_le]
      exact not_congr decimal_le_dyadic_iff
    · rw [hlt, ← not_le]
      exact not_congr dyadic_le_decimal_iff

theorem grid_eq_mul (i : Interval) (digits : Nat) (power : Int) :
    i.grid digits power = digits * i.grid 1 power := by
  simp only [grid, scaleUp, Nat.shiftLeft_eq, Nat.one_mul]
  ring

theorem grid_pos (i : Interval) (hd : 0 < digits) (power : Int) : 0 < i.grid digits power :=
  scaleUp_pos (Nat.mul_pos hd (Nat.pow_pos (by decide))) _

/-- The number lies between two neighbours of the grid. -/
theorem below_bounds (i : Interval) (power : Int) :
    decimal (i.below power) power ≤ i.number ∧ i.number < decimal (i.below power + 1) power := by
  have hpos := i.grid_pos Nat.one_pos power
  constructor
  · refine (decimal_le_dyadic_iff).mp ?_
    change i.grid (i.below power) power ≤ i.side i.centre power
    rw [grid_eq_mul]
    exact Nat.div_mul_le_self _ _
  · rw [← not_le]
    refine fun hle => absurd ((decimal_le_dyadic_iff).mpr hle) (Nat.not_le.mpr ?_)
    change i.side i.centre power < i.grid (i.below power + 1) power
    rw [grid_eq_mul]
    exact Nat.lt_mul_of_div_lt (Nat.lt_succ_self _) hpos

/-- What is picked from a grid rounds to the number and is one of its two neighbours. -/
theorem pick?_eq_some {tie : Tie} (h : i.pick? tie power = some digits) :
    i.Contains (decimal digits power) ∧
      (digits = i.below power ∨ digits = i.below power + 1) := by
  rw [← holds_iff]
  cases hlow : i.holds (i.below power) power <;> cases hhigh : i.holds (i.below power + 1) power
  all_goals simp only [pick?, hlow, hhigh] at h
  · cases h
  · cases h
    exact ⟨hhigh, Or.inr rfl⟩
  · cases h
    exact ⟨hlow, Or.inl rfl⟩
  · have hcases : digits = i.below power ∨ digits = i.below power + 1 := by
      split at h
      · exact Or.inl (Option.some.inj h).symm
      · split at h
        · exact Or.inr (Option.some.inj h).symm
        · cases tie with
          | up => exact Or.inr (Option.some.inj h).symm
          | even =>
            have heq := (Option.some.inj h).symm
            omega
    rcases hcases with rfl | rfl
    · exact ⟨hlow, Or.inl rfl⟩
    · exact ⟨hhigh, Or.inr rfl⟩

/-- A neighbour of the number is no further from it than the grid is wide. -/
theorem abs_neighbour_sub_le (h : digits = i.below power ∨ digits = i.below power + 1) :
    |decimal digits power - i.number| ≤ 10 ^ power := by
  obtain ⟨hlow, hhigh⟩ := i.below_bounds power
  have hnext : decimal (i.below power + 1) power = decimal (i.below power) power + 10 ^ power := by
    rw [decimal, decimal]
    push_cast
    ring
  rw [hnext] at hhigh
  have hp := ten_zpow_pos power
  rw [abs_le]
  rcases h with rfl | rfl
  · constructor <;> linarith
  · rw [hnext]
    constructor <;> linarith

/-! ## The leading digit -/

/-- The power of ten that is guessed from a power of two. -/
def guessedPower (size : Int) : Int := size * 30103 / 100000

/-- The guess is off by one at most, for all powers of two that singles have. -/
theorem guessedPower_near {size : Int} (hlow : -149 ≤ size) (hhigh : size ≤ 127) :
    (10 : ℚ) ^ (guessedPower size - 1) ≤ 2 ^ size ∧
      (2 : ℚ) ^ (size + 1) ≤ 10 ^ (guessedPower size + 2) := by
  have hall : ∀ n : Fin 277,
      scaleUp (1 * powerOfTen (guessedPower (n - 149) - 1).toNat) (-((n : Int) - 149)) ≤
          scaleUp 1 (n - 149) * powerOfTen (-(guessedPower (n - 149) - 1)).toNat ∧
        scaleUp 1 ((n : Int) - 149 + 1) * powerOfTen (-(guessedPower (n - 149) + 2)).toNat ≤
          scaleUp (1 * powerOfTen (guessedPower (n - 149) + 2).toNat) (-((n : Int) - 149 + 1)) := by
    decide +kernel
  have h := hall ⟨(size + 149).toNat, by omega⟩
  have hsize : ((size + 149).toNat : Int) - 149 = size := by omega
  simp only [hsize] at h
  rw [decimal_le_dyadic_iff, dyadic_le_decimal_iff] at h
  simpa [dyadic, decimal] using h

/-- The leading power is that of the leading digit, for all numbers of the size of a single. -/
theorem leadingPower_bounds (hc : 0 < i.centre) (hlow : -149 ≤ (i.centre.log2 : Int) + i.exponent)
    (hhigh : (i.centre.log2 : Int) + i.exponent ≤ 127) :
    10 ^ i.leadingPower ≤ i.number ∧ i.number < 10 ^ (i.leadingPower + 1) := by
  obtain ⟨hfrom, hto⟩ := guessedPower_near hlow hhigh
  obtain ⟨h1, h2⟩ := log2_bounds hc
  have hpos := two_zpow_pos i.exponent
  have hatLeast : (2 : ℚ) ^ ((i.centre.log2 : Int) + i.exponent) ≤ i.number := by
    rw [zpow_add₀ two_ne_zero]
    exact mul_le_mul_of_nonneg_right h1 hpos.le
  have hbelow : i.number < 2 ^ ((i.centre.log2 : Int) + i.exponent + 1) := by
    rw [add_right_comm, zpow_add₀ two_ne_zero]
    exact mul_lt_mul_of_pos_right h2 hpos
  have hreaches : ∀ p, i.grid 1 p ≤ i.side i.centre p ↔ (10 : ℚ) ^ p ≤ i.number := by
    intro p
    refine (decimal_le_dyadic_iff).trans ?_
    rw [decimal, Nat.cast_one, one_mul]
    rfl
  have hguess : ((i.centre.log2 : Int) + i.exponent) * 30103 / 100000 =
      guessedPower (i.centre.log2 + i.exponent) := rfl
  simp only [leadingPower, hguess, decide_eq_true_eq, hreaches]
  generalize guessedPower (i.centre.log2 + i.exponent) = guess at hfrom hto
  split
  · rename_i hr
    rw [add_assoc]
    exact ⟨hr, hbelow.trans_le hto⟩
  · rename_i hr
    split
    · rename_i hr'
      exact ⟨hr', lt_of_not_ge hr⟩
    · rename_i hr'
      rw [sub_add_cancel]
      exact ⟨hfrom.trans hatLeast, lt_of_not_ge hr'⟩

end Interval

/-! ## Stripped zeros -/

/-- Stripping moves zeros from the digits into the exponent. -/
theorem Decimal.strip_eq (fuel : Nat) (d : Decimal) :
    ∃ count : Nat, d.digits = (d.strip fuel).digits * 10 ^ count ∧
      (d.strip fuel).exponent = d.exponent + count := by
  induction fuel generalizing d with
  | zero => exact ⟨0, (Nat.mul_one _).symm, (Int.add_zero _).symm⟩
  | succ fuel ih =>
    rw [strip]
    split
    · rename_i hz
      obtain ⟨count, hd, he⟩ := ih ⟨d.digits / 10, d.exponent + 1⟩
      refine ⟨count + 1, ?_, ?_⟩
      · have hten : d.digits = d.digits / 10 * 10 := by omega
        rw [pow_succ, ← mul_assoc, ← hd]
        exact hten
      · rw [he]
        push_cast
        ring
    · exact ⟨0, (Nat.mul_one _).symm, (Int.add_zero _).symm⟩

theorem Decimal.value_strip (fuel : Nat) (d : Decimal) : (d.strip fuel).value = d.value := by
  obtain ⟨count, hd, he⟩ := d.strip_eq fuel
  rw [value, value, decimal, decimal, hd, he, zpow_add₀ (by norm_num), zpow_natCast]
  push_cast
  ring

/-! ## The fewest digits of a single -/

variable {m : Nat} {e : Int}

/-- The fewest digits of a single that is not zero: at most nine, in its interval, and on a grid
no finer than the decimal's own a neighbour of the single. -/
structure Shortest (m : Nat) (e : Int) (d : Decimal) : Prop where
  /-- The decimal is not zero. -/
  pos : 0 < d.digits
  /-- It has at most nine digits. -/
  short : d.digits ≤ 10 ^ 9
  /-- It rounds to the number. -/
  contains : (Interval.around .single m e).Contains d.value
  /-- It is a neighbour of the number on some grid. -/
  neighbour : ∃ power ≤ d.exponent, |d.value - dyadic m e| ≤ 10 ^ power

theorem number_around (f : Format) (m : Nat) (e : Int) :
    (Interval.around f m e).number = dyadic m e := by
  change dyadic (4 * m) (e - 2) = dyadic m e
  rw [dyadic, dyadic, show e = e - 2 + 2 by ring, zpow_add₀ two_ne_zero, add_sub_cancel_right]
  push_cast
  ring

/-- The bounds of a finite single. -/
theorem Format.Legal.single (h : Format.single.Legal m e) :
    m < 2 ^ 24 ∧ -149 ≤ e ∧ e ≤ 104 ∧ (-149 < e → 2 ^ 23 ≤ m) := by
  have hrange : Format.single.fractionRange = 2 ^ 23 := by decide
  have hleast : Format.single.leastExponent = -149 := by decide
  have hinfinity : Format.single.infinity = 255 * 2 ^ 23 := by decide
  obtain ⟨-, hlt, hl, hn, hfin⟩ := h
  rw [hrange] at hlt hn hfin
  rw [hleast] at hl hn hfin
  rw [hinfinity] at hfin
  refine ⟨by omega, hl, ?_, hn⟩
  by_contra hc
  have hm := hn (by omega)
  omega

/-- When the lower neighbour rounds to the number, something is picked. -/
theorem Interval.pick?_isSome {i : Interval} {power : Int} {tie : Tie}
    (h : i.holds (i.below power) power = true) : (i.pick? tie power).isSome = true := by
  cases hn : i.holds (i.below power + 1) power with
  | false => simp only [pick?, h, hn, Option.isSome_some]
  | true =>
    simp only [pick?, h, hn]
    split
    · rfl
    · split
      · rfl
      · cases tie <;> rfl

/-- On a grid that is finer than the interval the number's lower neighbour rounds to it. -/
theorem holds_below_of_fine (f : Format) (hm : 0 < m) {power : Int}
    (hfine : (10 : ℚ) ^ power < 2 ^ (e - 2)) :
    (Interval.around f m e).holds ((Interval.around f m e).below power) power = true := by
  have hg := two_zpow_pos (e - 2)
  obtain ⟨hlow, hhigh⟩ := (Interval.around f m e).below_bounds power
  have hnumber : (Interval.around f m e).number = 4 * m * 2 ^ (e - 2) := by
    change dyadic (4 * m) (e - 2) = _
    rw [dyadic]
    push_cast
    rfl
  have hnext : decimal ((Interval.around f m e).below power + 1) power =
      decimal ((Interval.around f m e).below power) power + 10 ^ power := by
    rw [decimal, decimal]
    push_cast
    ring
  have hreach : (1 : ℚ) * 2 ^ (e - 2) ≤ Interval.reach f m e * 2 ^ (e - 2) := by
    refine mul_le_mul_of_nonneg_right ?_ hg.le
    rw [Interval.reach]
    split <;> norm_num
  rw [hnext] at hhigh
  rw [Interval.holds_iff, Interval.contains_around_iff hm, sub_mul, add_mul, ← hnumber]
  refine ⟨by linarith, by linarith, ?_⟩
  rintro (he | he)
  · linarith
  · linarith

/-- The first grid with something to pick is found, no later than one that is known. -/
theorem findSome?_range {α : Type} {f : Nat → Option α} {known count : Nat}
    (hknown : known < count) (h : (f known).isSome = true) :
    ∃ n ≤ known, ∃ a, (List.range count).findSome? f = some a ∧ f n = some a := by
  cases hf : (List.range count).findSome? f with
  | none =>
    rw [List.findSome?_eq_none_iff.mp hf known (List.mem_range.mpr hknown)] at h
    cases h
  | some a =>
    obtain ⟨front, n, back, hsplit, hn, hfront⟩ := List.findSome?_eq_some_iff.mp hf
    refine ⟨n, ?_, a, rfl, hn⟩
    by_contra hc
    have hmem : known ∈ front := by
      have hall : known ∈ front ++ n :: back := hsplit ▸ List.mem_range.mpr hknown
      rcases List.mem_append.mp hall with hm | hm
      · exact hm
      · have hsorted : (front ++ n :: back).Pairwise (· < ·) := hsplit ▸ List.pairwise_lt_range
        rcases List.mem_cons.mp hm with rfl | hm
        · exact absurd (le_refl _) hc
        · have hlt := (List.pairwise_cons.mp (List.pairwise_append.mp hsorted).2.1).1 known hm
          omega
    rw [hfront known hmem] at h
    cases h

/-- A decimal in the interval of a number that is not zero has digits. -/
theorem digits_pos_of_contains {f : Format} (hm : 0 < m) {digits : Nat} {power : Int}
    (h : (Interval.around f m e).Contains (decimal digits power)) : 0 < digits := by
  have hpos := h.pos hm
  rw [decimal, mul_pos_iff_of_pos_right (ten_zpow_pos power)] at hpos
  exact_mod_cast hpos

/-- A grid point below a number has as many digits as the grid has places below the number's leading
digit. -/
theorem below_lt {i : Interval} (hnext : i.number < 10 ^ (i.leadingPower + 1)) (n : Nat) :
    i.below (i.leadingPower - n) < 10 ^ (n + 1) := by
  have hbelow := (i.below_bounds (i.leadingPower - n)).1.trans_lt hnext
  rw [decimal, show i.leadingPower + 1 = ((n + 1 : Nat) : Int) + (i.leadingPower - n) by omega,
    zpow_add₀ (by norm_num), mul_lt_mul_iff_left₀ (ten_zpow_pos _), zpow_natCast] at hbelow
  exact_mod_cast hbelow

/-- The leading power of the interval of a single. -/
theorem leadingPower_single (h : Format.single.Legal m e) :
    10 ^ (Interval.around .single m e).leadingPower ≤ dyadic m e ∧
      dyadic m e < 10 ^ ((Interval.around .single m e).leadingPower + 1) := by
  obtain ⟨hm, hleast, htop, -⟩ := h.single
  have hpos := h.pos
  have hlog : 2 ≤ (4 * m).log2 ∧ (4 * m).log2 < 26 :=
    ⟨(Nat.le_log2 (by omega)).mpr (by omega), (Nat.log2_lt (by omega)).mpr (by omega)⟩
  have hcentre : (Interval.around .single m e).centre = 4 * m := rfl
  have hexponent : (Interval.around .single m e).exponent = e - 2 := rfl
  rw [← number_around .single m e]
  exact Interval.leadingPower_bounds (by omega) (by rw [hcentre, hexponent]; omega)
    (by rw [hcentre, hexponent]; omega)

/-- The fewest digits of a single are picked from one of the first nine grids and stripped of
zeros. -/
theorem exists_picked (h : Format.single.Legal m e) :
    ∃ n ≤ 8, ∃ digits,
      (Interval.around .single m e).pick? .even
          ((Interval.around .single m e).leadingPower - (n : Nat)) = some digits ∧
        shortest .single .even m e =
          Decimal.strip 18 ⟨digits, (Interval.around .single m e).leadingPower - n⟩ := by
  obtain ⟨hm, -⟩ := h.single
  have hlead := (leadingPower_single h).1
  obtain ⟨i, hi⟩ : ∃ i, i = Interval.around .single m e := ⟨_, rfl⟩
  rw [← hi] at hlead ⊢
  have hfine : (10 : ℚ) ^ (i.leadingPower - (8 : Nat)) < 2 ^ (e - 2) := by
    have hmq : (m : ℚ) < 2 ^ 24 := by exact_mod_cast hm
    have hg := two_zpow_pos (e - 2)
    rw [zpow_sub₀ (by norm_num), zpow_natCast, div_lt_iff₀ (by norm_num)]
    rw [dyadic, Interval.quarters_eq] at hlead
    nlinarith
  have hpicked : (i.pick? .even (i.leadingPower - (8 : Nat))).isSome = true := by
    rw [hi] at hfine ⊢
    exact Interval.pick?_isSome (holds_below_of_fine .single h.pos hfine)
  obtain ⟨n, hn, d, hfound, hd⟩ := findSome?_range
    (f := fun n : Nat => (i.pick? .even (i.leadingPower - n)).map
      fun d => (⟨d, i.leadingPower - n⟩ : Decimal)) (show 8 < 17 by decide)
    (by rw [Option.isSome_map]; exact hpicked)
  obtain ⟨digits, hpick, rfl⟩ := Option.map_eq_some_iff.mp hd
  refine ⟨n, hn, digits, hpick, ?_⟩
  rw [shortest, if_neg h.pos.ne', ← hi]
  simp only [hfound, Option.getD_some]

/-- What the fewest digits of a single are. -/
theorem shortest_spec (h : Format.single.Legal m e) : Shortest m e (shortest .single .even m e) := by
  obtain ⟨n, hn, digits, hpick, hshortest⟩ := exists_picked h
  have hnext := (leadingPower_single h).2
  rw [← number_around .single m e] at hnext
  obtain ⟨hcontains, hneighbour⟩ := Interval.pick?_eq_some hpick
  have hdigits := digits_pos_of_contains h.pos hcontains
  have hnear := Interval.abs_neighbour_sub_le hneighbour
  have hlt := below_lt hnext n
  rw [number_around] at hnear
  generalize (Interval.around .single m e).leadingPower - (n : Nat) = power at *
  obtain ⟨count, hstrip, hpower⟩ := Decimal.strip_eq 18 ⟨digits, power⟩
  have hvalue := Decimal.value_strip 18 ⟨digits, power⟩
  dsimp only at hstrip hpower
  have hshort : digits ≤ 10 ^ 9 := by
    have hpow : 10 ^ (n + 1) ≤ 10 ^ 9 := Nat.pow_le_pow_right (by decide) (by omega)
    omega
  rw [hshortest]
  refine ⟨?_, ?_, ?_, power, by omega, ?_⟩
  · exact Nat.pos_of_mul_pos_right (hstrip ▸ hdigits)
  · exact (Nat.le_mul_of_pos_right _ (Nat.pow_pos (by decide))).trans (hstrip ▸ hshort)
  · rw [hvalue]
    exact hcontains
  · rw [hvalue]
    exact hnear

end NetTrial.Number
