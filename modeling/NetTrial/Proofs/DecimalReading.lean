import NetTrial.Number.Reading
import NetTrial.Proofs.Digits
import NetTrial.Proofs.ShortestDigits
/-!
# How near a decimal is read

The digits of a decimal that is not too long are read exactly; what is rounded is the power of ten
and the product or the quotient. So the number that is read is off by two roundings at most, and by
none when the power of ten is a double-precision number and the decimal is one too.
-/

namespace NetTrial.Number

/-! ## Rounded results in double precision -/

/-- A bit pattern of double precision that stands for the number nearest to a positive number. -/
structure Nearest (bits : Nat) (r v : ℚ) : Prop where
  /-- The pattern stands for the number, without a sign. -/
  stands : Format.double.Stands bits false v
  /-- The number is finite. -/
  lt : bits < Format.double.infinity
  /-- It is off by half a unit of the last place at most. -/
  near : |v - r| * 2 ^ 53 ≤ r
  /-- A double-precision number is not changed. -/
  exact : ∀ m e, r = dyadic m e → m < 2 ^ 53 → v = r

/-- A number well inside the range of double precision. -/
def Moderate (r : ℚ) : Prop := 2 ^ (-400 : Int) ≤ r ∧ r < 2 ^ (400 : Int)

variable {num den a b : Nat} {x y r v p : ℚ}

theorem Moderate.of_bounds (hlow : 1 / 2 ≤ r) (hhigh : r < 2 ^ 256) : Moderate r := by
  constructor
  · refine le_trans ?_ hlow
    rw [show (1 / 2 : ℚ) = 2 ^ (-1 : Int) by norm_num]
    exact zpow_le_zpow_right₀ one_le_two (by norm_num)
  · refine hhigh.trans_le ?_
    rw [← zpow_natCast]
    exact zpow_le_zpow_right₀ one_le_two (by norm_num)

theorem round_nearest (hn : 0 < num) (hd : 0 < den) (h : Moderate (num / den)) :
    ∃ v, Nearest (Format.double.round false num den) (num / den) v := by
  obtain ⟨hsize, hnext⟩ := floorLog2_bounds hn hd
  have hlow : -400 < floorLog2 num den + 1 :=
    (zpow_lt_zpow_iff_right₀ one_lt_two).mp (h.1.trans_lt hnext)
  have hhigh : floorLog2 num den < 400 :=
    (zpow_lt_zpow_iff_right₀ one_lt_two).mp (hsize.trans_lt h.2)
  have hleast : Format.double.leastExponent = -1074 := by decide
  have htop : Format.double.topExponent = 2047 := by decide
  have hbits : Format.double.fractionBits = 52 := rfl
  have hrange : 2 * Format.double.fractionRange = 2 ^ 53 := by decide
  obtain ⟨v, hstands, hlt, hnear, hexact⟩ := Format.round_stands hn hd false
    (by rw [hleast, hbits]; omega) (by rw [hleast, hbits, htop]; omega)
  rw [hbits] at hnear
  refine ⟨v, hstands, ?_, hnear, fun m e heq hm => hexact m e heq (by rwa [hrange])⟩
  have hsign : Format.double.signBit false = 0 := rfl
  rwa [hsign, Nat.zero_add] at hlt

theorem dyadic_pos_iff {m : Nat} {e : Int} : 0 < dyadic m e ↔ 0 < m := by
  rw [dyadic, mul_pos_iff_of_pos_right (two_zpow_pos e), Nat.cast_pos]

/-- The product of two magnitudes is rounded once. -/
theorem times_nearest (ha : Format.double.Stands a false x) (hb : Format.double.Stands b false y)
    (hx : 0 < x) (hy : 0 < y) (h : Moderate (x * y)) :
    ∃ v, Nearest ((Format.double.decode a).times Format.double (Format.double.decode b)) (x * y)
      v := by
  obtain ⟨m, e, hm, rfl⟩ := ha
  obtain ⟨n, k, hn, rfl⟩ := hb
  have hmpos := (dyadic_pos_iff).mp hx
  have hnpos := (dyadic_pos_iff).mp hy
  have hquot : (scaleUp (m * n) (e + k) : ℚ) / scaleUp 1 (-(e + k)) = dyadic m e * dyadic n k := by
    rw [scaleUp_div_one, dyadic, dyadic, dyadic, zpow_add₀ two_ne_zero]
    push_cast
    ring
  rw [hm, hn, ← hquot]
  rw [← hquot] at h
  exact round_nearest (scaleUp_pos (Nat.mul_pos hmpos hnpos) _) (scaleUp_pos Nat.one_pos _) h

/-- The quotient of two magnitudes is rounded once. -/
theorem over_nearest (ha : Format.double.Stands a false x) (hb : Format.double.Stands b false y)
    (hx : 0 < x) (hy : 0 < y) (h : Moderate (x / y)) :
    ∃ v, Nearest ((Format.double.decode a).over Format.double (Format.double.decode b)) (x / y)
      v := by
  obtain ⟨m, e, hm, rfl⟩ := ha
  obtain ⟨n, k, hn, rfl⟩ := hb
  have hmpos := (dyadic_pos_iff).mp hx
  have hnpos := (dyadic_pos_iff).mp hy
  have hquot : (scaleUp m (e - k) : ℚ) / scaleUp n (k - e) = dyadic m e / dyadic n k := by
    have hdiv := scaleUp_div m n (k - e)
    rw [neg_sub] at hdiv
    rw [hdiv, dyadic, dyadic, zpow_sub₀ two_ne_zero, div_div_eq_mul_div, mul_div_mul_comm]
    ring
  rw [hm, hn, ← hquot]
  rw [← hquot] at h
  exact round_nearest (scaleUp_pos hmpos _) (scaleUp_pos hnpos _) h

/-! ## Digits and powers of ten -/

/-- Digits that fit the fraction are read exactly. -/
theorem digits_stand {digits : Nat} (hpos : 0 < digits) (hlt : digits < 2 ^ 53) :
    Format.double.Stands (Format.double.round false digits 1) false digits := by
  have hmoderate : Moderate ((digits : ℚ) / (1 : Nat)) := by
    have hone : (1 : ℚ) ≤ digits := by exact_mod_cast hpos
    have htop : (digits : ℚ) < 2 ^ 53 := by exact_mod_cast hlt
    rw [Nat.cast_one, div_one]
    exact .of_bounds (by linarith) (by linarith)
  obtain ⟨v, hv⟩ := round_nearest hpos Nat.one_pos hmoderate
  have hexact := hv.exact digits 0 (by rw [dyadic]; simp) hlt
  have hstands := hv.stands
  rwa [hexact, Nat.cast_one, div_one] at hstands

/-- Powers of ten that decimals of singles have are well inside the range of double precision. -/
theorem ten_bounds {k : Nat} (hk : k ≤ 60) : (1 : ℚ) ≤ 10 ^ k ∧ (10 : ℚ) ^ k ≤ 2 ^ 200 := by
  refine ⟨one_le_pow₀ (by norm_num), (pow_le_pow_right₀ (by norm_num) hk).trans ?_⟩
  norm_num

/-- A power of ten is rounded once, and not at all when it is not large. -/
theorem powerWord_nearest {k : Nat} (hk : k ≤ 60) :
    ∃ w, Nearest (powerWord k) (10 ^ k) w ∧ (k ≤ 22 → w = 10 ^ k) := by
  have hcast : ((powerOfTen k : Nat) : ℚ) / (1 : Nat) = 10 ^ k := by
    rw [powerOfTen_cast, Nat.cast_one, div_one]
  have hmoderate : Moderate ((powerOfTen k : Nat) / (1 : Nat) : ℚ) := by
    obtain ⟨h1, h2⟩ := ten_bounds hk
    rw [hcast]
    exact .of_bounds (by linarith) (by linarith)
  have hpos : 0 < powerOfTen k := Nat.pow_pos (by decide)
  obtain ⟨w, hw⟩ := round_nearest hpos Nat.one_pos hmoderate
  rw [hcast] at hw
  refine ⟨w, hw, fun hsmall => hw.exact (5 ^ k) k ?_ ?_⟩
  · rw [dyadic, zpow_natCast, Nat.cast_pow, ← mul_pow]
    norm_num
  · exact (Nat.pow_le_pow_right (by decide) hsmall).trans_lt (by decide)

/-! ## Two roundings -/

/-- Two roundings in a row are off by two units at most. -/
theorem near_of_near (h1 : |p - r| * (2 ^ 53 - 1) ≤ r) (h2 : |v - p| * 2 ^ 53 ≤ p) :
    |v - r| * (2 ^ 53 - 1) ≤ 2 * r := by
  have htriangle := abs_sub_le v p r
  have hp : p ≤ r + |p - r| := by linarith [le_abs_self (p - r)]
  linarith

/-- What a decimal is read as. -/
structure Decimal.ReadAs (d : Decimal) (bits : Nat) (v : ℚ) : Prop where
  /-- The pattern stands for the number, without a sign. -/
  stands : Format.double.Stands bits false v
  /-- The number is finite. -/
  lt : bits < Format.double.infinity
  /-- It is off by two roundings at most. -/
  near : |v - d.value| * (2 ^ 53 - 1) ≤ 2 * d.value
  /-- With a small power of ten a double-precision number is not changed. -/
  exact : -22 ≤ d.exponent → d.exponent ≤ 22 →
    ∀ m e, d.value = dyadic m e → m < 2 ^ 53 → v = d.value

/-- A power of ten that is off by a rounding has an inverse that is off by little more. -/
theorem quotient_near {c w : ℚ} (hx : 0 < x) (hc : 0 < c) (hw : |w - c| * 2 ^ 53 ≤ c) :
    0 < w ∧ |x / w - x / c| * (2 ^ 53 - 1) ≤ x / c := by
  have hwc : c - w ≤ |w - c| := by
    rw [abs_sub_comm]
    exact le_abs_self _
  have hwpos : 0 < w := by linarith
  refine ⟨hwpos, ?_⟩
  have hdiff : x / w - x / c = x / c * ((c - w) / w) := by
    field_simp
  have hpart : |(c - w) / w| * (2 ^ 53 - 1) ≤ 1 := by
    rw [abs_div, abs_of_pos hwpos, div_mul_eq_mul_div, div_le_one hwpos, abs_sub_comm]
    linarith
  have hxc : 0 < x / c := div_pos hx hc
  rw [hdiff, abs_mul, abs_of_pos hxc, mul_assoc]
  exact mul_le_of_le_one_right hxc.le hpart

/-- Digits of a decimal times or divided by a power of ten are well inside the range of double
precision. -/
theorem moderate_scaled {w : ℚ} (hx : 1 ≤ x) (htop : x < 2 ^ 53) (hw : 1 / 2 ≤ w)
    (hlarge : w ≤ 2 ^ 201) : Moderate (x * w) ∧ Moderate (x / w) := by
  have hwpos : 0 < w := by linarith
  refine ⟨.of_bounds (by nlinarith) ?_, ?_, ?_⟩
  · calc x * w < 2 ^ 53 * 2 ^ 203 := mul_lt_mul'' htop (by linarith) (by linarith) hwpos.le
      _ = 2 ^ 256 := by norm_num
  · rw [le_div_iff₀ hwpos]
    calc (2 : ℚ) ^ (-400 : Int) * w ≤ 2 ^ (-400 : Int) * 2 ^ 201 :=
          mul_le_mul_of_nonneg_left hlarge (two_zpow_pos _).le
      _ = 2 ^ (-199 : Int) := by
          rw [← zpow_natCast, ← zpow_add₀ two_ne_zero]
          norm_num
      _ ≤ 1 := zpow_le_one_of_nonpos₀ one_le_two (by norm_num)
      _ ≤ x := hx
  · rw [div_lt_iff₀ hwpos]
    calc x < 2 ^ 53 := htop
      _ = 2 ^ (54 : Int) * (1 / 2) := by norm_num
      _ ≤ 2 ^ (400 : Int) * w :=
        mul_le_mul (zpow_le_zpow_right₀ one_le_two (by norm_num)) hw (by norm_num)
          (two_zpow_pos _).le

/-- A rounded power of ten is not far from the power. -/
theorem powerWord_bounds {k : Nat} {w : ℚ} (hk : k ≤ 60) (hw : Nearest (powerWord k) (10 ^ k) w) :
    1 / 2 ≤ w ∧ w ≤ 2 ^ 201 := by
  obtain ⟨hone, htop⟩ := ten_bounds hk
  have hnear : |w - 10 ^ k| ≤ 10 ^ k / 2 ^ 53 := by
    rw [le_div_iff₀ (by norm_num)]
    exact hw.near
  rw [abs_le] at hnear
  rw [pow_succ]
  constructor <;> linarith

namespace Decimal

variable {d : Decimal} {k : Nat}

/-- A decimal that is a product is read as a number off by two roundings at most. -/
theorem scaled_near_of_nonneg (hpos : 0 < d.digits) (hlt : d.digits < 2 ^ 53)
    (hexponent : d.exponent = k) (hk : k ≤ 60) : ∃ v, d.ReadAs d.scaled v := by
  have hlead := digits_stand hpos hlt
  have hdpos : (0 : ℚ) < d.digits := by exact_mod_cast hpos
  obtain ⟨w, hw, hsmall⟩ := powerWord_nearest hk
  obtain ⟨hwlow, hwhigh⟩ := powerWord_bounds hk hw
  have hwpos : 0 < w := by linarith
  have hvalue : d.value = d.digits * 10 ^ k := by
    rw [Decimal.value, decimal, hexponent, zpow_natCast]
  have hscaled : d.scaled = (Format.double.decode (Format.double.round false d.digits 1)).times
      Format.double (Format.double.decode (powerWord k)) := by
    have htoNat : d.exponent.toNat = k := by omega
    have hlargest : largestPower = 308 := rfl
    simp only [Decimal.scaled, if_neg hpos.ne', if_pos (by omega : 0 ≤ d.exponent), htoNat]
    rw [if_neg (by omega)]
  have hmoderate := (moderate_scaled (x := d.digits) (by exact_mod_cast hpos)
    (by exact_mod_cast hlt) hwlow hwhigh).1
  obtain ⟨v, hv⟩ := times_nearest hlead hw.stands hdpos hwpos hmoderate
  rw [← hscaled] at hv
  refine ⟨v, hv.stands, hv.lt, near_of_near ?_ hv.near, fun _ h22 m e heq hm => ?_⟩
  · rw [hvalue, ← mul_sub, abs_mul, abs_of_pos hdpos, mul_assoc]
    refine mul_le_mul_of_nonneg_left ?_ hdpos.le
    linarith [abs_nonneg (w - 10 ^ k), hw.near]
  · have hwk := hsmall (by omega)
    rw [hvalue, ← hwk] at heq ⊢
    exact hv.exact m e heq hm

/-- A decimal that is a quotient is read as a number off by two roundings at most. -/
theorem scaled_near_of_neg (hpos : 0 < d.digits) (hlt : d.digits < 2 ^ 53)
    (hexponent : d.exponent = -k) (hk0 : 0 < k) (hk : k ≤ 60) : ∃ v, d.ReadAs d.scaled v := by
  have hlead := digits_stand hpos hlt
  have hdpos : (0 : ℚ) < d.digits := by exact_mod_cast hpos
  obtain ⟨w, hw, hsmall⟩ := powerWord_nearest hk
  obtain ⟨hwlow, hwhigh⟩ := powerWord_bounds hk hw
  have hvalue : d.value = d.digits / 10 ^ k := by
    rw [Decimal.value, decimal, hexponent, zpow_neg, zpow_natCast, div_eq_mul_inv]
  have hscaled : d.scaled = (Format.double.decode (Format.double.round false d.digits 1)).over
      Format.double (Format.double.decode (powerWord k)) := by
    have htoNat : (-d.exponent).toNat = k := by omega
    have hlargest : largestPower = 308 := rfl
    simp only [Decimal.scaled, if_neg hpos.ne', if_neg (by omega : ¬ 0 ≤ d.exponent), htoNat]
    rw [if_pos (by omega), divideByPower]
  obtain ⟨hwpos, hquot⟩ := quotient_near hdpos (by positivity) hw.near
  have hmoderate := (moderate_scaled (x := d.digits) (by exact_mod_cast hpos)
    (by exact_mod_cast hlt) hwlow hwhigh).2
  obtain ⟨v, hv⟩ := over_nearest hlead hw.stands hdpos hwpos hmoderate
  rw [← hscaled] at hv
  refine ⟨v, hv.stands, hv.lt, near_of_near ?_ hv.near, fun h22 _ m e heq hm => ?_⟩
  · rw [hvalue]
    exact hquot
  · have hwk := hsmall (by omega)
    rw [hvalue, ← hwk] at heq ⊢
    exact hv.exact m e heq hm

/-- A decimal that is not too long and not too far from one is read as a number off by two roundings
at most. -/
theorem scaled_near (hpos : 0 < d.digits) (hlt : d.digits < 2 ^ 53) (hlow : -60 ≤ d.exponent)
    (hhigh : d.exponent ≤ 60) : ∃ v, d.ReadAs d.scaled v := by
  rcases le_or_gt 0 d.exponent with h | h
  · obtain ⟨k, hk⟩ := Int.eq_ofNat_of_zero_le h
    exact scaled_near_of_nonneg hpos hlt hk (by omega)
  · obtain ⟨k, hk⟩ := Int.eq_ofNat_of_zero_le (by omega : 0 ≤ -d.exponent)
    exact scaled_near_of_neg (k := k) hpos hlt (by omega) (by omega) (by omega)

/-- A natural that fits a word is read as a finite number. -/
theorem scaled_natural_lt {n : Nat} (hpos : 0 < n) (h : n < wordRange) :
    Decimal.scaled ⟨n, 0⟩ < Format.double.infinity := by
  have hone : (1 : ℚ) ≤ n := by exact_mod_cast hpos
  have htop : (n : ℚ) < 2 ^ 64 := by
    have hrange : wordRange = 2 ^ 64 := rfl
    exact_mod_cast hrange ▸ h
  obtain ⟨v, hv⟩ := round_nearest hpos Nat.one_pos
    (show Moderate ((n : ℚ) / (1 : Nat)) by
      rw [Nat.cast_one, div_one]
      exact .of_bounds (by linarith) (by linarith))
  have hnear := hv.near
  rw [Nat.cast_one, div_one] at hnear
  have hbounds : 1 / 2 ≤ v ∧ v < 2 ^ 65 := by
    have habs : |v - n| ≤ n / 2 ^ 53 := by
      rw [le_div_iff₀ (by norm_num)]
      exact hnear
    rw [abs_le] at habs
    constructor <;> linarith
  obtain ⟨w, hw, hsmall⟩ := powerWord_nearest (Nat.zero_le 60)
  have hw1 : w = 1 := hsmall (by decide)
  obtain ⟨u, hu⟩ := times_nearest hv.stands hw.stands (by linarith) (by rw [hw1]; exact one_pos)
    (show Moderate (v * w) by
      rw [hw1, mul_one]
      exact .of_bounds (by linarith) (by linarith))
  have hscaled : Decimal.scaled ⟨n, 0⟩ = (Format.double.decode (Format.double.round false n 1)).times
      Format.double (Format.double.decode (powerWord 0)) := by
    simp only [Decimal.scaled, if_neg hpos.ne']
    rfl
  rw [hscaled]
  exact hu.lt

end Decimal

/-! ## Leading digits -/

theorem powerOfTen_eq (k : Nat) : powerOfTen k = 10 ^ k := rfl

/-- The value of the character of a digit. -/
theorem toNat_digitOf (d : Fin 10) : (digitOf d).toNat - '0'.toNat = d.val := by
  revert d
  decide

/-- The natural that digits spell after those of a natural. -/
def continued (n : Nat) (ds : List (Fin 10)) : Nat := ds.foldl (fun n d => n * 10 + d.val) n

theorem le_continued (n : Nat) (ds : List (Fin 10)) : n ≤ continued n ds := by
  induction ds generalizing n with
  | nil => exact Nat.le_refl n
  | cons d ds ih => exact le_trans (by omega) (ih (n * 10 + d.val))

theorem continued_lt (n : Nat) (ds : List (Fin 10)) : continued n ds < (n + 1) * 10 ^ ds.length := by
  induction ds generalizing n with
  | nil => simp [continued]
  | cons d ds ih =>
    have hd := d.isLt
    calc continued (n * 10 + d.val) ds < (n * 10 + d.val + 1) * 10 ^ ds.length := ih _
      _ ≤ (n + 1) * 10 * 10 ^ ds.length := Nat.mul_le_mul_right _ (by omega)
      _ = (n + 1) * 10 ^ (d :: ds).length := by
        rw [List.length_cons, Nat.pow_succ]
        ring

/-- A natural is less than the power of ten of its number of digits. -/
theorem lt_pow_length_digitsOf (n : Nat) : n < 10 ^ (digitsOf n).length := by
  obtain ⟨d, ds, hdigits, hvalue, -⟩ := exists_digitsOf n
  have hlt := continued_lt 0 (d :: ds)
  rw [hdigits, List.length_map]
  rw [zero_add, Nat.one_mul] at hlt
  exact hvalue ▸ hlt

theorem foldl_pushWhole (n : Nat) (ds : List (Fin 10)) (h : continued n ds < wordRange) :
    (ds.map digitOf).foldl (fun d c => d.pushWhole (c.toNat - '0'.toNat)) (⟨n, 0⟩ : Decimal) =
      ⟨continued n ds, 0⟩ := by
  induction ds generalizing n with
  | nil => rfl
  | cons d ds ih =>
    have hfits : n * 10 + d.val < wordRange := (le_continued _ ds).trans_lt h
    rw [List.map_cons, List.foldl_cons, toNat_digitOf, Decimal.pushWhole, if_pos ⟨rfl, hfits⟩]
    exact ih _ h

/-- The last digits of a natural continue the others. -/
theorem pushFraction_lastDigits (n whole count : Nat) (exponent : Int)
    (h : whole * 10 ^ count + n % 10 ^ count < wordRange) :
    (⟨whole, exponent⟩ : Decimal).pushFraction (Spelling.lastDigits n count) =
      ⟨whole * 10 ^ count + n % 10 ^ count, exponent - count⟩ := by
  induction count generalizing whole exponent with
  | zero => simp [Spelling.lastDigits, Decimal.pushFraction, Nat.mod_one]
  | succ k ih =>
    obtain ⟨digit, hdigit⟩ : ∃ digit, digit = n / powerOfTen k % 10 := ⟨_, rfl⟩
    have hsplit : n % 10 ^ (k + 1) = digit * 10 ^ k + n % 10 ^ k := by
      rw [hdigit, Nat.pow_succ, Nat.mod_mul, powerOfTen_eq]
      ring
    have hnext : whole * 10 ^ (k + 1) + n % 10 ^ (k + 1) =
        (whole * 10 + digit) * 10 ^ k + n % 10 ^ k := by
      rw [hsplit, Nat.pow_succ]
      ring
    rw [hnext] at h ⊢
    have hfits : whole * 10 + digit < wordRange := by
      have hle := Nat.le_mul_of_pos_right (whole * 10 + digit)
        (Nat.pow_pos (by decide) : 0 < 10 ^ k)
      omega
    rw [Spelling.lastDigits, Decimal.pushFraction]
    simp only [← hdigit]
    rw [if_pos hfits, ih _ _ h]
    congr 1
    omega

namespace Spelling

/-- When all digits fit a word, the leading digits are all of them. -/
theorem leading_eq (negative : Bool) (whole n count : Nat) (exponent : Option Int)
    (h : whole * 10 ^ count + n % 10 ^ count < wordRange) :
    (⟨negative, whole, lastDigits n count, exponent⟩ : Spelling).leading =
      ⟨whole * 10 ^ count + n % 10 ^ count, -count + exponent.getD 0⟩ := by
  obtain ⟨d, ds, hdigits, hvalue, -⟩ := exists_digitsOf whole
  have hwhole : whole < wordRange := by
    have hle := Nat.le_mul_of_pos_right whole (Nat.pow_pos (by decide) : 0 < 10 ^ count)
    omega
  have hcontinued : continued 0 (d :: ds) = whole := hvalue
  have hfold := foldl_pushWhole 0 (d :: ds) (by rw [hcontinued]; exact hwhole)
  rw [hcontinued, ← hdigits] at hfold
  simp only [leading, hfold]
  rw [pushFraction_lastDigits n whole count 0 h, zero_sub]

/-- The leading digits of a decimal with at most nine digits: the decimal itself, or without an
exponent its natural with the zero behind the point. -/
theorem leading_ofDecimal (negative : Bool) {d : Decimal} (hpos : 0 < d.digits)
    (hshort : d.digits ≤ 10 ^ 9) :
    (ofDecimal .single negative d).leading = d ∨
      ∃ k : Nat, d.exponent = k ∧ d.digits * 10 ^ (k + 1) < 10 ^ 14 ∧
        (ofDecimal .single negative d).leading = ⟨d.digits * 10 ^ (k + 1), -1⟩ := by
  have hword : 10 ^ 14 < wordRange := by decide
  have hall : ∀ count, d.digits / 10 ^ count * 10 ^ count + d.digits % 10 ^ count = d.digits :=
    fun count => Nat.div_add_mod' _ _
  simp only [ofDecimal, if_neg hpos.ne']
  split
  · rename_i hplain
    split
    · rename_i hsign
      right
      obtain ⟨k, hk⟩ := Int.eq_ofNat_of_zero_le hsign
      have htoNat : d.exponent.toNat = k := by omega
      have hsmall : d.digits * 10 ^ (k + 1) < 10 ^ 14 := by
        have hgreatest : PlainRange.single.greatest = 12 := rfl
        rw [hgreatest] at hplain
        calc d.digits * 10 ^ (k + 1)
            < 10 ^ (digitsOf d.digits).length * 10 ^ (k + 1) :=
              Nat.mul_lt_mul_of_pos_right (lt_pow_length_digitsOf _) (Nat.pow_pos (by decide))
          _ = 10 ^ ((digitsOf d.digits).length + (k + 1)) := (Nat.pow_add _ _ _).symm
          _ ≤ 10 ^ 14 := Nat.pow_le_pow_right (by decide) (by omega)
      have hzero : lastDigits 0 1 = [0] := rfl
      have hwhole : d.digits * powerOfTen k * 10 ^ 1 + 0 % 10 ^ 1 = d.digits * 10 ^ (k + 1) := by
        rw [powerOfTen_eq, Nat.pow_succ]
        ring
      refine ⟨k, hk, hsmall, ?_⟩
      rw [htoNat, ← hzero, leading_eq _ _ _ _ _ (by rw [hwhole]; omega), hwhole]
      rfl
    · left
      have hexponent : -((-d.exponent).toNat : Int) + (none : Option Int).getD 0 = d.exponent := by
        rw [Option.getD_none]
        omega
      rw [powerOfTen_eq, leading_eq _ _ _ _ _ (by rw [hall]; omega), hall, hexponent]
  · left
    have hcount : 0 < (digitsOf d.digits).length := by
      refine Nat.pos_of_ne_zero fun h => ?_
      have hlt := lt_pow_length_digitsOf d.digits
      rw [h, Nat.pow_zero] at hlt
      omega
    have hexponent : -(((digitsOf d.digits).length - 1 : Nat) : Int) +
        (some (d.exponent + (digitsOf d.digits).length - 1)).getD 0 = d.exponent := by
      rw [Option.getD_some]
      omega
    rw [powerOfTen_eq, leading_eq _ _ _ _ _ (by rw [hall]; omega), hall, hexponent]

/-- The leading digits of a natural that fits a word. -/
theorem leading_ofNat {n : Nat} (h : n < wordRange) : (ofNat n).leading = ⟨n, 0⟩ := by
  have hnone : lastDigits 0 0 = [] := rfl
  have hwhole : n * 10 ^ 0 + 0 % 10 ^ 0 = n := by simp
  rw [ofNat, ← hnone, leading_eq _ _ _ _ _ (by rw [hwhole]; exact h), hwhole]
  rfl

/-- A natural that fits a word has a reading. -/
theorem toDouble?_ofNat {n : Nat} (h : n < wordRange) : (ofNat n).toDouble?.isSome = true := by
  have hlt : Decimal.scaled ⟨n, 0⟩ < Format.double.infinity := by
    rcases Nat.eq_zero_or_pos n with rfl | hpos
    · decide
    · exact Decimal.scaled_natural_lt hpos h
  rw [toDouble?, leading_ofNat h, if_pos hlt]
  rfl

end Spelling

end NetTrial.Number
