import Mathlib.Algebra.Order.Field.Power
import Mathlib.Data.Rat.Cast.Order
import Mathlib.Tactic.FieldSimp
import Mathlib.Tactic.Linarith
import Mathlib.Tactic.Positivity
import Mathlib.Tactic.Ring
import NetTrial.Number.Binary
/-!
# What rounding gives

A quotient is rounded to the mantissa nearest to it at the place that its size and the format
fix, a tie going to the even one. So a rounded number is off by half a step at most, a number that
the format has is not changed, and one that lies in the interval of a single is rounded to it.
-/

namespace NetTrial.Number

/-- The number that a mantissa and a power of two make. -/
def dyadic (mantissa : Nat) (exponent : Int) : ℚ := mantissa * 2 ^ exponent

theorem two_zpow_pos (e : Int) : (0 : ℚ) < 2 ^ e := zpow_pos two_pos e

/-! ## Shifted naturals -/

theorem scaleUp_cast (a : Nat) (e : Int) : (scaleUp a e : ℚ) = a * 2 ^ e.toNat := by
  rw [scaleUp, Nat.shiftLeft_eq]
  push_cast
  rfl

/-- Shifting one of two naturals multiplies their quotient by a power of two. -/
theorem scaleUp_div (a b : Nat) (e : Int) :
    (scaleUp a (-e) : ℚ) / scaleUp b e = a / b / 2 ^ e := by
  rw [scaleUp_cast, scaleUp_cast]
  rcases le_total 0 e with h | h
  · obtain ⟨n, rfl⟩ := Int.eq_ofNat_of_zero_le h
    simp [div_div]
  · obtain ⟨n, hn⟩ := Int.eq_ofNat_of_zero_le (Int.neg_nonneg.mpr h)
    obtain rfl : e = -(n : Int) := by omega
    simp [div_eq_mul_inv]
    ring

theorem scaleUp_pos {a : Nat} (h : 0 < a) (e : Int) : 0 < scaleUp a e := by
  rw [scaleUp, Nat.shiftLeft_eq]
  positivity

/-- A mantissa with a power of two is the quotient of two shifted naturals. -/
theorem scaleUp_div_one (m : Nat) (e : Int) : (scaleUp m e : ℚ) / scaleUp 1 (-e) = dyadic m e := by
  have h := scaleUp_div m 1 (-e)
  rw [neg_neg] at h
  rw [h, dyadic, Nat.cast_one, div_one, zpow_neg, div_inv_eq_mul]

/-! ## The size of a quotient -/

theorem log2_bounds {n : Nat} (h : 0 < n) :
    (2 : ℚ) ^ (n.log2 : Int) ≤ n ∧ (n : ℚ) < 2 ^ ((n.log2 : Int) + 1) := by
  constructor
  · rw [zpow_natCast]
    exact_mod_cast Nat.log2_self_le (by omega : n ≠ 0)
  · rw [show (n.log2 : Int) + 1 = ((n.log2 + 1 : Nat) : Int) by push_cast; rfl, zpow_natCast]
    exact_mod_cast Nat.lt_log2_self

/-- A quotient lies between the power of two of its size and the next one. -/
theorem floorLog2_bounds {num den : Nat} (hn : 0 < num) (hd : 0 < den) :
    (2 : ℚ) ^ floorLog2 num den ≤ num / den ∧ (num : ℚ) / den < 2 ^ (floorLog2 num den + 1) := by
  have hdq : (0 : ℚ) < den := by exact_mod_cast hd
  obtain ⟨hn1, hn2⟩ := log2_bounds hn
  obtain ⟨hd1, hd2⟩ := log2_bounds hd
  generalize hg : (num.log2 : Int) - (den.log2 : Int) = guess
  have hupper : (num : ℚ) / den < 2 ^ (guess + 1) := by
    rw [div_lt_iff₀ hdq]
    calc (num : ℚ) < 2 ^ ((num.log2 : Int) + 1) := hn2
      _ = 2 ^ (guess + 1) * 2 ^ (den.log2 : Int) := by
        rw [← zpow_add₀ two_ne_zero]
        congr 1
        omega
      _ ≤ 2 ^ (guess + 1) * den := by gcongr
  have hlower : (2 : ℚ) ^ (guess - 1) ≤ num / den := by
    rw [le_div_iff₀ hdq]
    calc (2 : ℚ) ^ (guess - 1) * den ≤ 2 ^ (guess - 1) * 2 ^ ((den.log2 : Int) + 1) := by gcongr
      _ = 2 ^ (num.log2 : Int) := by
        rw [← zpow_add₀ two_ne_zero]
        congr 1
        omega
      _ ≤ num := hn1
  have htest : scaleUp den guess ≤ scaleUp num (-guess) ↔ (2 : ℚ) ^ guess ≤ num / den := by
    have hpos : (0 : ℚ) < scaleUp den guess := by exact_mod_cast scaleUp_pos hd guess
    rw [← Nat.cast_le (α := ℚ), ← one_le_div₀ hpos, scaleUp_div,
      one_le_div₀ (two_zpow_pos guess)]
  simp only [floorLog2, hg]
  by_cases hc : scaleUp den guess ≤ scaleUp num (-guess)
  · rw [if_pos hc]
    exact ⟨htest.mp hc, hupper⟩
  · rw [if_neg hc, sub_add_cancel]
    exact ⟨hlower, lt_of_not_ge fun h => hc (htest.mpr h)⟩

theorem floorLog2_eq {num den : Nat} (hn : 0 < num) (hd : 0 < den) {e : Int}
    (hlow : (2 : ℚ) ^ e ≤ num / den) (hhigh : (num : ℚ) / den < 2 ^ (e + 1)) :
    floorLog2 num den = e := by
  obtain ⟨h1, h2⟩ := floorLog2_bounds hn hd
  have hlt1 := (zpow_lt_zpow_iff_right₀ one_lt_two).mp (hlow.trans_lt h2)
  have hlt2 := (zpow_lt_zpow_iff_right₀ one_lt_two).mp (h1.trans_lt hhigh)
  omega

/-! ## The nearest natural -/

/-- The nearest natural is off by a half at most. -/
theorem divideEven_near (num : Nat) {den : Nat} (hd : 0 < den) :
    2 * num ≤ 2 * (divideEven num den * den) + den ∧
      2 * (divideEven num den * den) ≤ 2 * num + den := by
  have hsplit := Nat.div_add_mod' num den
  have hr := Nat.mod_lt num hd
  have hnext : (num / den + 1) * den = num / den * den + den := Nat.succ_mul _ _
  simp only [divideEven]
  split
  · omega
  · split
    · omega
    · rcases Nat.mod_two_eq_zero_or_one (num / den) with h | h
      · rw [h, Nat.add_zero]
        omega
      · rw [h]
        omega

/-- A natural that is off by a half at most is the nearest one; when it is off by a half it has to
be even. -/
theorem divideEven_eq {num den m : Nat} (hd : 0 < den) (hlow : 2 * (m * den) ≤ 2 * num + den)
    (hhigh : 2 * num ≤ 2 * (m * den) + den)
    (htie : 2 * (m * den) = 2 * num + den ∨ 2 * num = 2 * (m * den) + den → m % 2 = 0) :
    divideEven num den = m := by
  have hsplit := Nat.div_add_mod' num den
  have hr := Nat.mod_lt num hd
  have hnext : (num / den + 1) * den = num / den * den + den := Nat.succ_mul _ _
  have hm : m = num / den ∨ m = num / den + 1 := by
    have hle : m ≤ num / den + 1 := by
      by_contra hc
      have hmul := Nat.mul_le_mul_right den (by omega : num / den + 1 + 1 ≤ m)
      rw [Nat.succ_mul] at hmul
      omega
    have hge : num / den ≤ m := by
      by_contra hc
      have hmul := Nat.mul_le_mul_right den (by omega : m + 1 ≤ num / den)
      rw [Nat.succ_mul] at hmul
      omega
    omega
  simp only [divideEven]
  rcases hm with rfl | rfl
  · rw [if_neg (by omega : ¬ den < 2 * (num % den))]
    split
    · rfl
    · omega
  · rw [if_neg (by omega : ¬ 2 * (num % den) < den)]
    split
    · rfl
    · omega

/-! ## Rounding to a place -/

/-- The place that a size is rounded to. -/
def Format.placeOf (f : Format) (size : Int) : Int := max (size - f.fractionBits) f.leastExponent

/-- The mantissa of a quotient at a place. -/
def mantissaAt (num den : Nat) (place : Int) : Nat :=
  divideEven (scaleUp num (-place)) (scaleUp den place)

variable {num den : Nat}

/-- How far a mantissa is off, by the shifted naturals. -/
theorem abs_dyadic_sub (hd : 0 < den) (place : Int) (m : Nat) :
    |dyadic m place - num / den| =
      |(m * scaleUp den place : ℚ) - scaleUp num (-place)| / scaleUp den place * 2 ^ place := by
  have hq : (0 : ℚ) < scaleUp den place := by exact_mod_cast scaleUp_pos hd place
  have hp := two_zpow_pos place
  have hquot : (num : ℚ) / den = scaleUp num (-place) / scaleUp den place * 2 ^ place := by
    rw [scaleUp_div, div_mul_cancel₀ _ hp.ne']
  rw [dyadic, hquot, ← sub_mul, abs_mul, abs_of_pos hp]
  congr 1
  rw [← abs_of_pos hq, ← abs_div, abs_of_pos hq, sub_div, mul_div_cancel_right₀ _ hq.ne']

/-- A mantissa is off by half a step at most when twice the difference is no more than the shifted
denominator. -/
theorem abs_dyadic_sub_le_iff (hd : 0 < den) (place : Int) (m : Nat) :
    |dyadic m place - num / den| ≤ 2 ^ place / 2 ↔
      2 * scaleUp num (-place) ≤ 2 * (m * scaleUp den place) + scaleUp den place ∧
        2 * (m * scaleUp den place) ≤ 2 * scaleUp num (-place) + scaleUp den place := by
  have hq : (0 : ℚ) < scaleUp den place := by exact_mod_cast scaleUp_pos hd place
  have hp := two_zpow_pos place
  rw [abs_dyadic_sub hd, div_eq_inv_mul (2 ^ place), mul_le_mul_iff_left₀ hp, div_le_iff₀ hq,
    abs_le, ← Nat.cast_le (α := ℚ), ← Nat.cast_le (α := ℚ)]
  push_cast
  constructor
  · rintro ⟨h1, h2⟩
    constructor <;> linarith
  · rintro ⟨h1, h2⟩
    constructor <;> linarith

/-- A mantissa is off by half a step when twice the difference is the shifted denominator. -/
theorem eq_of_abs_dyadic_sub_eq (hd : 0 < den) (place : Int) (m : Nat)
    (h : 2 * (m * scaleUp den place) = 2 * scaleUp num (-place) + scaleUp den place ∨
      2 * scaleUp num (-place) = 2 * (m * scaleUp den place) + scaleUp den place) :
    |dyadic m place - num / den| = 2 ^ place / 2 := by
  have hq : (0 : ℚ) < scaleUp den place := by exact_mod_cast scaleUp_pos hd place
  rw [abs_dyadic_sub hd, div_eq_inv_mul (2 ^ place)]
  congr 1
  rw [div_eq_iff hq.ne']
  rcases h with h | h
  · have hc : 2 * ((m : ℚ) * scaleUp den place) = 2 * scaleUp num (-place) + scaleUp den place := by
      exact_mod_cast h
    rw [abs_of_nonneg (by linarith)]
    linarith
  · have hc : 2 * (scaleUp num (-place) : ℚ) = 2 * (m * scaleUp den place) + scaleUp den place := by
      exact_mod_cast h
    rw [abs_of_nonpos (by linarith)]
    linarith

/-- A mantissa is off by half a step at most. -/
theorem mantissaAt_near (num : Nat) (hd : 0 < den) (place : Int) :
    |dyadic (mantissaAt num den place) place - num / den| ≤ 2 ^ place / 2 :=
  (abs_dyadic_sub_le_iff hd place _).mpr (divideEven_near _ (scaleUp_pos hd place))

/-- A mantissa that is off by half a step at most is the one that is found; when it is off by half a
step it has to be even. -/
theorem mantissaAt_eq (hd : 0 < den) {place : Int} {m : Nat}
    (hnear : |dyadic m place - num / den| ≤ 2 ^ place / 2)
    (htie : |dyadic m place - num / den| = 2 ^ place / 2 → m % 2 = 0) :
    mantissaAt num den place = m := by
  obtain ⟨hhigh, hlow⟩ := (abs_dyadic_sub_le_iff hd place m).mp hnear
  exact divideEven_eq (scaleUp_pos hd place) hlow hhigh
    fun h => htie (eq_of_abs_dyadic_sub_eq hd place m h)

/-! ## Bit patterns -/

namespace Format

variable {f : Format}

/-- A bit pattern stands for a number with a sign. -/
def Stands (f : Format) (bits : Nat) (negative : Bool) (r : ℚ) : Prop :=
  ∃ m e, f.decode bits = .finite negative m e ∧ dyadic m e = r

theorem fractionRange_eq (f : Format) : f.fractionRange = 2 ^ f.fractionBits := Nat.one_shiftLeft _

theorem exponentRange_eq (f : Format) : f.exponentRange = 2 ^ f.exponentBits := Nat.one_shiftLeft _

theorem fractionRange_pos (f : Format) : 0 < f.fractionRange := by
  rw [fractionRange_eq]
  positivity

theorem exponentRange_pos (f : Format) : 0 < f.exponentRange := by
  rw [exponentRange_eq]
  positivity

/-- Where the sign is. -/
theorem ranges_eq (f : Format) :
    2 ^ (f.fractionBits + f.exponentBits) = f.fractionRange * f.exponentRange := by
  rw [fractionRange_eq, exponentRange_eq, pow_add]

/-- The sign stands above all exponents and fractions. -/
theorem signBit_eq (f : Format) (negative : Bool) :
    f.signBit negative = f.fractionRange * (f.exponentRange * negative.toNat) := by
  rw [fractionRange_eq, exponentRange_eq, signBit, ← mul_assoc, ← pow_add]
  cases negative <;> simp [Nat.one_shiftLeft]

theorem infinity_lt (f : Format) : f.infinity < f.fractionRange * f.exponentRange := by
  have h : f.topExponent < f.exponentRange := Nat.sub_lt f.exponentRange_pos Nat.one_pos
  rw [infinity, mul_comm]
  exact Nat.mul_lt_mul_of_pos_left h f.fractionRange_pos

variable {bits : Nat} {negative : Bool}

theorem fraction_signBit_add : f.fraction (f.signBit negative + bits) = f.fraction bits := by
  rw [fraction, fraction, signBit_eq, Nat.mul_add_mod]

theorem exponentField_signBit_add :
    f.exponentField (f.signBit negative + bits) = f.exponentField bits := by
  rw [exponentField, exponentField, signBit_eq, Nat.mul_add_div f.fractionRange_pos,
    Nat.mul_add_mod]

theorem isNegative_signBit_add (h : bits < f.fractionRange * f.exponentRange) :
    f.isNegative (f.signBit negative + bits) = negative := by
  rw [isNegative, Nat.shiftRight_eq_div_pow, ranges_eq, signBit_eq, ← mul_assoc,
    Nat.mul_add_div (Nat.zero_lt_of_lt h), Nat.div_eq_of_lt h]
  cases negative <;> rfl

/-- A finite pattern with a sign stands for what it stands for without, apart from the sign. -/
theorem decode_signBit_add (h : bits < f.infinity) :
    f.decode (f.signBit negative + bits) =
      if f.exponentField bits = 0 then .finite negative (f.fraction bits) f.leastExponent
      else .finite negative (f.fraction bits + f.fractionRange)
        (f.leastExponent + (f.exponentField bits - 1 : Nat)) := by
  have hfield : f.exponentField bits < f.topExponent := by
    have hdiv : bits / f.fractionRange < f.topExponent :=
      (Nat.div_lt_iff_lt_mul f.fractionRange_pos).mpr h
    exact (Nat.mod_le _ _).trans_lt hdiv
  rw [decode, fraction_signBit_add, exponentField_signBit_add,
    isNegative_signBit_add (h.trans f.infinity_lt), if_neg hfield.ne]

/-- A mantissa at a place is packed into the pattern that stands for the two. -/
theorem stands_pack {place : Int} {m : Nat} (hp : f.leastExponent ≤ place)
    (hm : m ≤ 2 * f.fractionRange) (hn : f.leastExponent < place → f.fractionRange ≤ m)
    (hfin : (place - f.leastExponent).toNat * f.fractionRange + m < f.infinity) :
    f.Stands (f.signBit negative + ((place - f.leastExponent).toNat * f.fractionRange + m))
      negative (dyadic m place) := by
  obtain ⟨n, hplace⟩ := Int.eq_ofNat_of_zero_le (by omega : 0 ≤ place - f.leastExponent)
  obtain rfl : place = f.leastExponent + n := by omega
  have hR := f.fractionRange_pos
  rw [hplace, Int.toNat_natCast] at hfin ⊢
  have hfield : f.exponentField (n * f.fractionRange + m) = n + m / f.fractionRange := by
    have hlt := Nat.div_lt_of_lt_mul (hfin.trans f.infinity_lt)
    rw [exponentField, Nat.mod_eq_of_lt hlt, mul_comm, Nat.mul_add_div hR]
  have hfraction : f.fraction (n * f.fractionRange + m) = m % f.fractionRange := by
    rw [fraction, mul_comm, Nat.mul_add_mod]
  rw [Stands, decode_signBit_add hfin, hfield, hfraction]
  rcases Nat.lt_or_ge m f.fractionRange with hsmall | hlarge
  · obtain rfl : n = 0 := by
      by_contra h
      exact absurd (hn (by omega)) (by omega)
    rw [Nat.div_eq_of_lt hsmall, Nat.mod_eq_of_lt hsmall, if_pos rfl]
    exact ⟨_, _, rfl, by simp⟩
  · rcases hm.lt_or_eq with hlt | rfl
    · have hdiv : m / f.fractionRange = 1 := Nat.div_eq_of_lt_le (by omega) (by omega)
      rw [hdiv, if_neg (by omega), Nat.mod_eq_sub_mod hlarge, Nat.mod_eq_of_lt (by omega),
        Nat.sub_add_cancel hlarge, Nat.add_sub_cancel]
      exact ⟨_, _, rfl, rfl⟩
    · -- the mantissa was rounded up to the next power of two
      rw [Nat.mul_div_cancel _ hR, Nat.mul_mod_left, if_neg (by omega)]
      refine ⟨_, _, rfl, ?_⟩
      have hnext : f.leastExponent + (n + 2 - 1 : Nat) = f.leastExponent + n + 1 := by omega
      rw [dyadic, dyadic, hnext, zpow_add_one₀ two_ne_zero]
      push_cast
      ring

theorem roundMagnitude_eq (hn : 0 < num) {place : Int}
    (hp : place = f.placeOf (floorLog2 num den))
    (hfin : (place - f.leastExponent).toNat * f.fractionRange + mantissaAt num den place <
      f.infinity) :
    f.roundMagnitude num den =
      (place - f.leastExponent).toNat * f.fractionRange + mantissaAt num den place := by
  subst hp
  rw [roundMagnitude, if_neg hn.ne']
  exact min_eq_left hfin.le

/-! ## Rounding in the normal range -/

/-- The place of the leading bit is the range of the fraction at the place of the last one. -/
theorem leading_place (f : Format) (size : Int) :
    (2 : ℚ) ^ size = f.fractionRange * 2 ^ (size - f.fractionBits) := by
  rw [fractionRange_eq, Nat.cast_pow, Nat.cast_two, ← zpow_natCast, ← zpow_add₀ two_ne_zero]
  congr 1
  omega

/-- The mantissa in the normal range has all its bits, or is the next power of two. -/
theorem mantissaAt_bounds (hn : 0 < num) (hd : 0 < den) :
    f.fractionRange ≤ mantissaAt num den (floorLog2 num den - f.fractionBits) ∧
      mantissaAt num den (floorLog2 num den - f.fractionBits) ≤ 2 * f.fractionRange := by
  obtain ⟨hsize, hnext⟩ := floorLog2_bounds hn hd
  rw [zpow_add_one₀ two_ne_zero, leading_place f] at hnext
  rw [leading_place f] at hsize
  generalize floorLog2 num den - f.fractionBits = place at *
  have hstep := two_zpow_pos place
  have hnear := mantissaAt_near num hd place
  rw [dyadic, abs_le] at hnear
  generalize mantissaAt num den place = m at hnear
  generalize f.fractionRange = R at hsize hnext
  constructor
  · by_contra hc
    have hcq : (m : ℚ) + 1 ≤ R := by exact_mod_cast Nat.lt_of_not_le hc
    nlinarith [mul_le_mul_of_nonneg_right hcq hstep.le]
  · by_contra hc
    have hcq : (2 : ℚ) * R + 1 ≤ m := by exact_mod_cast Nat.lt_of_not_le hc
    nlinarith [mul_le_mul_of_nonneg_right hcq hstep.le]

/-- A number that the format has is its own mantissa at its place. -/
theorem mantissaAt_exact (hn : 0 < num) (hd : 0 < den) {m : Nat} {e : Int}
    (heq : (num : ℚ) / den = dyadic m e) (hlt : m < 2 * f.fractionRange) :
    dyadic (mantissaAt num den (floorLog2 num den - f.fractionBits))
      (floorLog2 num den - f.fractionBits) = num / den := by
  have hsize := (floorLog2_bounds hn hd).1
  rw [leading_place f] at hsize
  generalize floorLog2 num den - f.fractionBits = place at *
  have he : place ≤ e := by
    by_contra hc
    have hle : (2 : ℚ) ^ (e + 1) ≤ 2 ^ place := zpow_le_zpow_right₀ one_le_two (by omega)
    have hmq : (m : ℚ) < 2 * f.fractionRange := by exact_mod_cast hlt
    rw [heq, dyadic] at hsize
    rw [zpow_add_one₀ two_ne_zero] at hle
    have hRq : (0 : ℚ) < f.fractionRange := by exact_mod_cast f.fractionRange_pos
    nlinarith [two_zpow_pos e]
  obtain ⟨k, hk⟩ := Int.eq_ofNat_of_zero_le (by omega : 0 ≤ e - place)
  have hexact : dyadic (m * 2 ^ k) place = num / den := by
    rw [heq, dyadic, dyadic, show e = place + k by omega, zpow_add₀ two_ne_zero, zpow_natCast]
    push_cast
    ring
  rw [mantissaAt_eq hd (m := m * 2 ^ k), hexact]
  · rw [hexact, sub_self, abs_zero]
    positivity
  · rw [hexact, sub_self, abs_zero]
    intro h
    exact absurd h (by positivity)

/-- A quotient in the normal range is rounded to a number that is off by half a unit of the last
fraction bit at most, and not at all when the format has the quotient. -/
theorem round_stands (hn : 0 < num) (hd : 0 < den) (negative : Bool)
    (hlow : f.leastExponent + f.fractionBits ≤ floorLog2 num den)
    (hhigh : floorLog2 num den - f.fractionBits - f.leastExponent + 2 < f.topExponent) :
    ∃ v, f.Stands (f.round negative num den) negative v ∧
      f.round negative num den < f.signBit negative + f.infinity ∧
      |v - num / den| * 2 ^ (f.fractionBits + 1) ≤ num / den ∧
      ∀ m e, (num : ℚ) / den = dyadic m e → m < 2 * f.fractionRange → v = num / den := by
  have hsize := (floorLog2_bounds hn hd).1
  have hm : f.fractionRange ≤ mantissaAt num den (floorLog2 num den - f.fractionBits) ∧ _ :=
    mantissaAt_bounds hn hd
  have hexact := fun (m : Nat) (e : Int) => mantissaAt_exact (f := f) hn hd (m := m) (e := e)
  have hof : floorLog2 num den - f.fractionBits = f.placeOf (floorLog2 num den) := by
    rw [placeOf, max_eq_left (by omega)]
  rw [leading_place f] at hsize
  obtain ⟨place, hplace⟩ : ∃ place, place = floorLog2 num den - f.fractionBits := ⟨_, rfl⟩
  rw [← hplace] at hm hexact hof hsize
  have hfin : (place - f.leastExponent).toNat * f.fractionRange + mantissaAt num den place <
      f.infinity := by
    have hplaces : (place - f.leastExponent).toNat + 2 < f.topExponent := by omega
    have hmul := Nat.mul_lt_mul_of_pos_right hplaces f.fractionRange_pos
    rw [Nat.add_mul] at hmul
    rw [infinity]
    omega
  have hround : f.round negative num den = f.signBit negative +
      ((place - f.leastExponent).toNat * f.fractionRange + mantissaAt num den place) := by
    rw [round, roundMagnitude_eq hn hof hfin]
  rw [hround]
  refine ⟨_, stands_pack (by omega) hm.2 (fun _ => hm.1) hfin, by omega, ?_, hexact⟩
  calc _ ≤ 2 ^ place / 2 * 2 ^ (f.fractionBits + 1) :=
        mul_le_mul_of_nonneg_right (mantissaAt_near num hd place) (by positivity)
    _ = f.fractionRange * 2 ^ place := by
      rw [fractionRange_eq, pow_succ]
      push_cast
      ring
    _ ≤ num / den := hsize

end Format

end NetTrial.Number
