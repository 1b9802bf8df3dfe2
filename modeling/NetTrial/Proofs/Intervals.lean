import NetTrial.Number.Shortest
import NetTrial.Proofs.Rounding
/-!
# The interval of a number

What lies in the interval of a finite number is rounded to that number.
-/

namespace NetTrial.Number

/-- Mantissa and exponent of a finite number of a format that is not zero. -/
structure Format.Legal (f : Format) (m : Nat) (e : Int) : Prop where
  /-- The number is not zero. -/
  pos : 0 < m
  /-- The mantissa has at most one bit more than the fraction. -/
  lt : m < 2 * f.fractionRange
  /-- The exponent is one of the format. -/
  least : f.leastExponent ≤ e
  /-- Above the least exponent the mantissa has all its bits. -/
  normal : f.leastExponent < e → f.fractionRange ≤ m
  /-- The number is finite. -/
  finite : (e - f.leastExponent).toNat * f.fractionRange + m < f.infinity

namespace Format

variable {f : Format} {m : Nat} {e : Int} {bits : Nat} {negative : Bool}

/-- A pattern is its sign, its exponent field and its fraction, side by side. -/
theorem eq_fields (hb : bits < 2 * (f.fractionRange * f.exponentRange)) :
    bits = f.signBit (f.isNegative bits) +
      (f.exponentField bits * f.fractionRange + f.fraction bits) := by
  have hsign : bits / (f.fractionRange * f.exponentRange) = (f.isNegative bits).toNat := by
    have hlt : bits / (f.fractionRange * f.exponentRange) < 2 :=
      Nat.div_lt_of_lt_mul (by rwa [mul_comm])
    rw [isNegative, Nat.shiftRight_eq_div_pow, ranges_eq, Nat.mod_eq_of_lt hlt]
    generalize bits / (f.fractionRange * f.exponentRange) = s at hlt
    rcases (by omega : s = 0 ∨ s = 1) with rfl | rfl <;> rfl
  have hfield : bits / f.fractionRange = f.exponentRange * (f.isNegative bits).toNat +
      f.exponentField bits := by
    rw [← hsign, ← Nat.div_div_eq_div_mul, exponentField]
    exact (Nat.div_add_mod _ _).symm
  calc bits = f.fractionRange * (bits / f.fractionRange) + bits % f.fractionRange :=
        (Nat.div_add_mod _ _).symm
    _ = _ := by
      rw [hfield, signBit_eq, fraction]
      ring

/-- Below the top exponent the fraction does not reach infinity. -/
theorem field_add_range_le_infinity (htop : f.exponentField bits ≠ f.topExponent) :
    f.exponentField bits * f.fractionRange + f.fractionRange ≤ f.infinity := by
  have hmod : f.exponentField bits < f.exponentRange := Nat.mod_lt _ f.exponentRange_pos
  have hlt : f.exponentField bits + 1 ≤ f.topExponent := by
    rw [topExponent] at htop ⊢
    omega
  calc f.exponentField bits * f.fractionRange + f.fractionRange
      = (f.exponentField bits + 1) * f.fractionRange := (Nat.succ_mul _ _).symm
    _ ≤ f.topExponent * f.fractionRange := Nat.mul_le_mul_right _ hlt
    _ = f.infinity := rfl

/-- A finite pattern is packed from the mantissa and the exponent that it stands for. -/
theorem eq_pack_of_decode (hb : bits < 2 * (f.fractionRange * f.exponentRange))
    (h : f.decode bits = .finite negative m e) :
    bits = f.signBit negative + ((e - f.leastExponent).toNat * f.fractionRange + m) ∧
      (f.Legal m e ∨ m = 0 ∧ e = f.leastExponent) := by
  have hsplit := eq_fields hb
  have hfraction : f.fraction bits < f.fractionRange := Nat.mod_lt _ f.fractionRange_pos
  rw [decode] at h
  by_cases htop : f.exponentField bits = f.topExponent
  · rw [if_pos htop] at h
    split at h <;> cases h
  · have hinfinity := field_add_range_le_infinity htop
    rw [if_neg htop] at h
    by_cases hzero : f.exponentField bits = 0
    · rw [if_pos hzero] at h
      cases h
      rw [hzero, Nat.zero_mul] at hsplit hinfinity
      rw [sub_self, Int.toNat_zero, Nat.zero_mul]
      refine ⟨hsplit, ?_⟩
      rcases Nat.eq_zero_or_pos (f.fraction bits) with hz | hpos
      · exact Or.inr ⟨hz, rfl⟩
      · exact Or.inl ⟨hpos, by omega, le_refl _, fun hn => absurd hn (lt_irrefl _),
          by rw [sub_self, Int.toNat_zero, Nat.zero_mul]; omega⟩
    · rw [if_neg hzero] at h
      cases h
      -- the leading bit of a normal number is the last step of its exponent field
      have hone : (f.exponentField bits - 1) * f.fractionRange + f.fractionRange =
          f.exponentField bits * f.fractionRange := by
        rw [← Nat.succ_mul]
        congr 1
        omega
      rw [add_sub_cancel_left, Int.toNat_natCast]
      refine ⟨by omega, Or.inl ⟨by omega, by omega, by omega, fun _ => by omega, ?_⟩⟩
      rw [add_sub_cancel_left, Int.toNat_natCast]
      omega

end Format

namespace Interval

variable {f : Format} {m num den : Nat} {e : Int} {r : ℚ}

/-- A number lies in an interval, at an end only if the ends belong to it. -/
def Contains (i : Interval) (r : ℚ) : Prop :=
  if i.closed then dyadic i.low i.exponent ≤ r ∧ r ≤ dyadic i.high i.exponent
  else dyadic i.low i.exponent < r ∧ r < dyadic i.high i.exponent

/-- How many quarters of a step the interval of a number reaches down. -/
def reach (f : Format) (m : Nat) (e : Int) : Nat :=
  if m = f.fractionRange ∧ f.leastExponent < e then 1 else 2

theorem reach_le (f : Format) (m : Nat) (e : Int) : reach f m e ≤ 2 := by
  rw [reach]
  split <;> decide

/-- The interval reaches down two quarters at most. -/
theorem reach_mul_le (f : Format) (m : Nat) (e k : Int) :
    (reach f m e : ℚ) * 2 ^ k ≤ 2 * 2 ^ k :=
  mul_le_mul_of_nonneg_right (by exact_mod_cast reach_le f m e) (two_zpow_pos k).le

/-- What lies in the interval of a number, in quarters of its step. -/
theorem contains_around_iff (hm : 0 < m) :
    (Interval.around f m e).Contains r ↔
      (4 * m - reach f m e) * 2 ^ (e - 2) ≤ r ∧ r ≤ (4 * m + 2) * 2 ^ (e - 2) ∧
        (r = (4 * m - reach f m e) * 2 ^ (e - 2) ∨ r = (4 * m + 2) * 2 ^ (e - 2) → m % 2 = 0) := by
  have hreach : reach f m e ≤ 4 * m := (reach_le f m e).trans (by omega)
  have hlow : dyadic (Interval.around f m e).low (Interval.around f m e).exponent =
      (4 * m - reach f m e) * 2 ^ (e - 2) := by
    change dyadic (4 * m - reach f m e) (e - 2) = _
    rw [dyadic, Nat.cast_sub hreach]
    push_cast
    rfl
  have hhigh : dyadic (Interval.around f m e).high (Interval.around f m e).exponent =
      (4 * m + 2) * 2 ^ (e - 2) := by
    change dyadic (4 * m + 2) (e - 2) = _
    rw [dyadic]
    push_cast
    rfl
  have hclosed : (Interval.around f m e).closed = (m % 2 == 0) := rfl
  rw [Contains, hlow, hhigh, hclosed]
  by_cases hEven : m % 2 = 0
  · rw [if_pos (by simpa using hEven)]
    exact ⟨fun h => ⟨h.1, h.2, fun _ => hEven⟩, fun h => ⟨h.1, h.2.1⟩⟩
  · rw [if_neg (by simpa using hEven)]
    constructor
    · rintro ⟨h1, h2⟩
      exact ⟨h1.le, h2.le, fun h => (h.elim h1.ne' h2.ne).elim⟩
    · rintro ⟨h1, h2, h3⟩
      exact ⟨lt_of_le_of_ne h1 fun h => hEven (h3 (Or.inl h.symm)),
        lt_of_le_of_ne h2 fun h => hEven (h3 (Or.inr h))⟩

/-- What lies in the interval of a number that is not zero is positive. -/
theorem Contains.pos (h : (Interval.around f m e).Contains r) (hm : 0 < m) : 0 < r := by
  have hlow := ((contains_around_iff hm).mp h).1
  have hreach : (reach f m e : ℚ) ≤ 2 := by exact_mod_cast reach_le f m e
  have hmone : (1 : ℚ) ≤ m := by exact_mod_cast hm
  nlinarith [two_zpow_pos (e - 2)]

/-- A step in quarters. -/
theorem quarters_eq (e : Int) : (2 : ℚ) ^ e = 4 * 2 ^ (e - 2) := by
  rw [show e = e - 2 + 2 by ring, zpow_add₀ two_ne_zero, add_sub_cancel_right]
  ring

/-- The least number that has all bits at a place, in quarters of the step. -/
theorem top_eq (f : Format) (e : Int) :
    (2 : ℚ) ^ (e + f.fractionBits) = 4 * (f.fractionRange * 2 ^ (e - 2)) := by
  rw [Format.leading_place f, add_sub_cancel_right, quarters_eq]
  ring

/-- Below a power of two the numbers lie twice as close, and what lies in the interval of the power
there is rounded up to it. -/
theorem roundMagnitude_below (hfinite : (e - f.leastExponent).toNat * f.fractionRange +
      f.fractionRange < f.infinity) (hleast : f.leastExponent < e) (hn : 0 < num) (hd : 0 < den)
    (hlow : 4 * (f.fractionRange * 2 ^ (e - 2)) - 2 ^ (e - 2) ≤ (num : ℚ) / den)
    (hlt : (num : ℚ) / den < 2 ^ (e + f.fractionBits)) :
    f.roundMagnitude num den = (e - f.leastExponent).toNat * f.fractionRange + f.fractionRange := by
  have htop := top_eq f e
  have hR : (1 : ℚ) * 2 ^ (e - 2) ≤ f.fractionRange * 2 ^ (e - 2) :=
    mul_le_mul_of_nonneg_right (by exact_mod_cast f.fractionRange_pos) (two_zpow_pos _).le
  have hhalf : (2 : ℚ) ^ (e - 1) = 2 * 2 ^ (e - 2) := by
    rw [show e - 1 = e - 2 + 1 by ring, zpow_add_one₀ two_ne_zero, mul_comm]
  have hsize : floorLog2 num den = e + f.fractionBits - 1 := by
    refine floorLog2_eq hn hd ?_ (by rwa [sub_add_cancel])
    rw [zpow_sub_one₀ two_ne_zero, htop]
    linarith
  have hplace : e - 1 = f.placeOf (floorLog2 num den) := by
    rw [hsize, Format.placeOf, max_eq_left (by omega)]
    omega
  have hdiff : |dyadic (2 * f.fractionRange) (e - 1) - num / den| =
      4 * (f.fractionRange * 2 ^ (e - 2)) - num / den := by
    rw [dyadic, hhalf]
    push_cast
    rw [abs_of_nonneg (by linarith)]
    ring
  have hmantissa : mantissaAt num den (e - 1) = 2 * f.fractionRange := by
    refine mantissaAt_eq hd ?_ fun _ => Nat.mul_mod_right 2 _
    rw [hdiff, hhalf]
    linarith
  have hpack : (e - 1 - f.leastExponent).toNat * f.fractionRange + 2 * f.fractionRange =
      (e - f.leastExponent).toNat * f.fractionRange + f.fractionRange := by
    rw [show (e - f.leastExponent).toNat = (e - 1 - f.leastExponent).toNat + 1 by omega]
    ring
  rw [Format.roundMagnitude_eq hn hplace (by rw [hmantissa, hpack]; exact hfinite), hmantissa, hpack]

/-- What lies in the interval of a number, but not below a power of two, is rounded at the place of
the number. -/
theorem place_of_contains (h : f.Legal m e) (hn : 0 < num) (hd : 0 < den)
    (hlow : (4 * m - reach f m e) * 2 ^ (e - 2) ≤ (num : ℚ) / den)
    (hhigh : (num : ℚ) / den ≤ (4 * m + 2) * 2 ^ (e - 2))
    (hbelow : ¬ ((m = f.fractionRange ∧ f.leastExponent < e) ∧
      (num : ℚ) / den < 2 ^ (e + f.fractionBits))) :
    e = f.placeOf (floorLog2 num den) := by
  have htop := top_eq f e
  have hg := two_zpow_pos (e - 2)
  have hreach := reach_mul_le f m e (e - 2)
  rw [sub_mul] at hlow
  rw [add_mul] at hhigh
  have hmq : (m : ℚ) * 2 ^ (e - 2) + 1 * 2 ^ (e - 2) ≤ 2 * (f.fractionRange * 2 ^ (e - 2)) := by
    rw [← add_mul, ← mul_assoc]
    refine mul_le_mul_of_nonneg_right ?_ hg.le
    exact_mod_cast h.lt
  have hwithin : (num : ℚ) / den < 2 ^ (e + f.fractionBits + 1) := by
    rw [zpow_add_one₀ two_ne_zero, htop]
    linarith
  rw [Format.placeOf]
  rcases h.least.eq_or_lt with heq | hlt
  · have hle := (floorLog2_bounds hn hd).1.trans_lt hwithin
    rw [zpow_lt_zpow_iff_right₀ one_lt_two] at hle
    rw [max_eq_right (by omega), heq]
  · have hsize : floorLog2 num den = e + f.fractionBits := by
      refine floorLog2_eq hn hd ?_ hwithin
      by_contra hc
      have hnarrow : m ≠ f.fractionRange := fun hm => hbelow ⟨⟨hm, hlt⟩, lt_of_not_ge hc⟩
      have hmR : f.fractionRange + 1 ≤ m := by
        have hnormal := h.normal hlt
        omega
      have hmul := mul_le_mul_of_nonneg_right
        (show (f.fractionRange : ℚ) + 1 ≤ m by exact_mod_cast hmR) hg.le
      rw [htop] at hc
      linarith
    rw [hsize, max_eq_left (by omega)]
    omega

/-- What lies in the interval of a number is rounded to it. -/
theorem roundMagnitude_of_contains (h : f.Legal m e) (hn : 0 < num) (hd : 0 < den)
    (hc : (Interval.around f m e).Contains (num / den)) :
    f.roundMagnitude num den = (e - f.leastExponent).toNat * f.fractionRange + m := by
  obtain ⟨hlow, hhigh, htie⟩ := (contains_around_iff h.pos).mp hc
  by_cases hbelow : (m = f.fractionRange ∧ f.leastExponent < e) ∧
      (num : ℚ) / den < 2 ^ (e + f.fractionBits)
  · obtain ⟨⟨rfl, hleast⟩, hlt⟩ := hbelow
    refine roundMagnitude_below h.finite hleast hn hd (le_trans (le_of_eq ?_) hlow) hlt
    rw [reach, if_pos ⟨rfl, hleast⟩]
    push_cast
    ring
  · have hplace := place_of_contains h hn hd hlow hhigh hbelow
    have hreach := reach_mul_le f m e (e - 2)
    have hstep := quarters_eq e
    have hmantissa : mantissaAt num den e = m := by
      refine mantissaAt_eq hd ?_ fun hhalf => htie ?_
      · rw [dyadic, hstep, abs_le]
        constructor <;> linarith
      · rw [dyadic, hstep] at hhalf
        rcases abs_cases ((m : ℚ) * (4 * 2 ^ (e - 2)) - num / den) with ⟨ha, -⟩ | ⟨ha, -⟩
        · refine Or.inl (le_antisymm ?_ hlow)
          linarith
        · refine Or.inr (le_antisymm hhigh ?_)
          linarith
    rw [Format.roundMagnitude_eq hn hplace (by rw [hmantissa]; exact h.finite), hmantissa]

end Interval

end NetTrial.Number
