import Mathlib.Tactic.LinearCombination
import NetTrial.Proofs.ShortestDigits
/-!
# How near short decimals come to midpoints

Between two neighbouring singles lies their midpoint, an odd multiple of a power of two. A decimal
on a grid that is not finer than the step from a single to the midpoint is a multiple of one power
of ten for each such power of two. How near the multiples come to the odd multiples is read off two
neighbouring fractions around the ratio of the two powers: in their basis a pair of multipliers that
are not too large lies on one of the two axes, or its difference is large.
-/

namespace NetTrial.Number

/-! ## Pairs of multipliers in a basis of two fractions -/

/-- Two fractions, the second larger than the first. -/
structure Bracket where
  /-- The numerator of the lower fraction. -/
  lowNum : Nat
  /-- The denominator of the lower fraction. -/
  lowDen : Nat
  /-- The numerator of the upper fraction. -/
  highNum : Nat
  /-- The denominator of the upper fraction. -/
  highDen : Nat
  deriving DecidableEq

/-- The largest numerator that a midpoint of singles has, and one more. -/
def midpointLimit : Nat := 2 ^ 25

/-- How much larger a difference has to be than a rounding error: a difference of this part of its
midpoint or more is not bridged by two roundings. -/
def roundingPart : Nat := 2 ^ 53 - 3

namespace Bracket

/-- What the lower fraction falls short of a ratio. -/
def lowGap (s : Bracket) (a b : Nat) : Nat := s.lowDen * a - s.lowNum * b

/-- What the upper fraction exceeds a ratio by. -/
def highGap (s : Bracket) (a b : Nat) : Nat := s.highNum * b - s.highDen * a

/-- Neighbouring fractions around a ratio, none between them with a small denominator. -/
structure Around (s : Bracket) (a b : Nat) : Prop where
  /-- The fractions are neighbours. -/
  neighbours : s.highNum * s.lowDen = s.lowNum * s.highDen + 1
  /-- The lower one is not above the ratio. -/
  low : s.lowNum * b ≤ s.lowDen * a
  /-- The upper one is not below it. -/
  high : s.highDen * a ≤ s.highNum * b
  /-- What lies between them has a large denominator. -/
  large : midpointLimit < s.lowDen + s.highDen

instance (s : Bracket) (a b : Nat) : Decidable (s.Around a b) :=
  decidable_of_iff (s.highNum * s.lowDen = s.lowNum * s.highDen + 1 ∧
      s.lowNum * b ≤ s.lowDen * a ∧ s.highDen * a ≤ s.highNum * b ∧
      midpointLimit < s.lowDen + s.highDen)
    ⟨fun ⟨h1, h2, h3, h4⟩ => ⟨h1, h2, h3, h4⟩, fun ⟨h1, h2, h3, h4⟩ => ⟨h1, h2, h3, h4⟩⟩

/-- Moves both fractions towards a ratio as far as the limit of denominators allows. -/
def narrow (a b : Nat) : (fuel : Nat) → Bracket → Bracket
  | 0, s => s
  | fuel + 1, s =>
    if midpointLimit < s.lowDen + s.highDen then s
    else
      -- the lower fraction goes up as far as it stays at or below the ratio
      let up := min (s.lowGap a b / s.highGap a b) ((midpointLimit - s.lowDen) / s.highDen)
      let s := { s with
        lowNum := s.lowNum + up * s.highNum
        lowDen := s.lowDen + up * s.highDen }
      -- the upper one goes down and stays above the ratio, unless the lower one has reached it
      let room := (midpointLimit - s.highDen) / s.lowDen
      let down :=
        if s.lowGap a b = 0 then room + 1 else min ((s.highGap a b - 1) / s.lowGap a b) room
      narrow a b fuel { s with
        highNum := s.highNum + down * s.lowNum
        highDen := s.highDen + down * s.lowDen }

/-- Neighbouring fractions around a ratio. -/
def ofRatio (a b : Nat) : Bracket := narrow a b 40 ⟨a / b, 1, a / b + 1, 1⟩

/-- A pair of multipliers is apart: the difference is more than the part of the midpoint that two
roundings may bridge. -/
def Apart (a b m n : Nat) : Prop :=
  2 * (n * b) < roundingPart * (m * a - n * b) ∨ 2 * (n * b) < roundingPart * (n * b - m * a)

instance (a b m n : Nat) : Decidable (Apart a b m n) :=
  inferInstanceAs (Decidable (_ ∨ _))

/-- A fraction whose multiples are no concern: they are apart or agree, or the numerator is that of
no midpoint; or it is one of the exceptions, and the only such multiple. -/
def Harmless (exceptions : List (Nat × Nat)) (a b m n : Nat) : Prop :=
  Apart a b m n ∨ m * a = n * b ∨ n % 2 = 0 ∨ midpointLimit ≤ n ∨
    ((m, n) ∈ exceptions ∧ midpointLimit ≤ 2 * n)

instance (exceptions : List (Nat × Nat)) (a b m n : Nat) :
    Decidable (Harmless exceptions a b m n) :=
  inferInstanceAs (Decidable (_ ∨ _ ∨ _ ∨ _ ∨ _))

/-- Neighbouring fractions that leave only exceptions. -/
structure Clears (s : Bracket) (exceptions : List (Nat × Nat)) (a b : Nat) : Prop where
  /-- They are neighbours around the ratio. -/
  around : s.Around a b
  /-- The two gaps together are more than roundings bridge. -/
  mixed : 2 * (midpointLimit * b) < roundingPart * (s.lowGap a b + s.highGap a b)
  /-- Multiples of the lower fraction are no concern. -/
  low : Harmless exceptions a b s.lowDen s.lowNum
  /-- Multiples of the upper fraction are no concern. -/
  high : Harmless exceptions a b s.highDen s.highNum

instance (s : Bracket) (exceptions : List (Nat × Nat)) (a b : Nat) :
    Decidable (s.Clears exceptions a b) :=
  decidable_of_iff (s.Around a b ∧
      2 * (midpointLimit * b) < roundingPart * (s.lowGap a b + s.highGap a b) ∧
      Harmless exceptions a b s.lowDen s.lowNum ∧ Harmless exceptions a b s.highDen s.highNum)
    ⟨fun ⟨h1, h2, h3, h4⟩ => ⟨h1, h2, h3, h4⟩, fun ⟨h1, h2, h3, h4⟩ => ⟨h1, h2, h3, h4⟩⟩

variable {exceptions : List (Nat × Nat)} {a b m n : Nat} {s : Bracket}

/-- A multiple of a harmless fraction is no concern. -/
theorem Harmless.multiple (h : Harmless exceptions a b m n) {c : Nat} (hc : 0 < c)
    (hodd : c * n % 2 = 1) (hlimit : c * n < midpointLimit) :
    Apart a b (c * m) (c * n) ∨ c * m * a = c * n * b ∨ (c * m, c * n) ∈ exceptions := by
  rcases h with h | h | h | h | ⟨h, hlarge⟩
  · left
    rw [Apart, Nat.mul_assoc, Nat.mul_assoc, ← Nat.mul_sub, ← Nat.mul_sub]
    refine h.imp (fun h => ?_) fun h => ?_
    · rw [Nat.mul_left_comm, Nat.mul_left_comm roundingPart]
      exact Nat.mul_lt_mul_of_pos_left h hc
    · rw [Nat.mul_left_comm, Nat.mul_left_comm roundingPart]
      exact Nat.mul_lt_mul_of_pos_left h hc
  · right; left
    rw [Nat.mul_assoc, Nat.mul_assoc, h]
  · rw [Nat.mul_mod, h] at hodd
    simp at hodd
  · exact absurd (Nat.le_mul_of_pos_left n hc) (by omega)
  · right; right
    -- an odd multiplier other than one would be three at least
    have hone : c = 1 := by
      by_contra hne
      have hmul := Nat.mul_le_mul_right n (by omega : 2 ≤ c)
      omega
    rw [hone, Nat.one_mul, Nat.one_mul]
    exact h

/-- A pair of multipliers in the basis of two neighbouring fractions, and its difference by the two
gaps. -/
theorem Around.coordinates (h : s.Around a b) (m n : Nat) :
    ∃ low high : Int, (m : Int) = low * s.lowDen + high * s.highDen ∧
      (n : Int) = low * s.lowNum + high * s.highNum ∧
      (m * a : Int) - n * b = low * s.lowGap a b - high * s.highGap a b := by
  have hneighbours : (s.highNum * s.lowDen : Int) = s.lowNum * s.highDen + 1 := by
    exact_mod_cast h.neighbours
  rw [lowGap, highGap, Nat.cast_sub h.low, Nat.cast_sub h.high]
  push_cast
  refine ⟨m * s.highNum - n * s.highDen, n * s.lowDen - m * s.lowNum, ?_, ?_, ?_⟩
  · linear_combination -(m : Int) * hneighbours
  · linear_combination -(n : Int) * hneighbours
  · linear_combination ((n : Int) * b - m * a) * hneighbours

/-- Coordinates of opposite signs leave a difference of both gaps at least. -/
theorem Clears.apart_of_mixed (h : s.Clears exceptions a b) (hn : n < midpointLimit)
    (hdiff : (s.lowGap a b + s.highGap a b : Int) ≤ m * a - n * b ∨
      (s.lowGap a b + s.highGap a b : Int) ≤ n * b - m * a) : Apart a b m n := by
  have hmixed := h.mixed
  have hnb := Nat.mul_le_mul_right b hn.le
  refine hdiff.imp (fun hd => ?_) fun hd => ?_
  · have hle : s.lowGap a b + s.highGap a b ≤ m * a - n * b := by
      have hcast : ((s.lowGap a b + s.highGap a b + n * b : Nat) : Int) ≤ (m * a : Nat) := by
        push_cast
        linarith
      omega
    have hmul := Nat.mul_le_mul_left roundingPart hle
    omega
  · have hle : s.lowGap a b + s.highGap a b ≤ n * b - m * a := by
      have hcast : ((s.lowGap a b + s.highGap a b + m * a : Nat) : Int) ≤ (n * b : Nat) := by
        push_cast
        linarith
      omega
    have hmul := Nat.mul_le_mul_left roundingPart hle
    omega

/-- Multipliers that are not too large are apart, agree or are an exception. -/
theorem Clears.apart (h : s.Clears exceptions a b) (hm : 0 < m) (hlimit : m ≤ midpointLimit)
    (hodd : n % 2 = 1) (hn : n < midpointLimit) :
    Apart a b m n ∨ m * a = n * b ∨ (m, n) ∈ exceptions := by
  obtain ⟨low, high, hmEq, hnEq, hdiff⟩ := h.around.coordinates m n
  have hlarge : (midpointLimit : Int) < s.lowDen + s.highDen := by exact_mod_cast h.around.large
  have hmle : (m : Int) ≤ midpointLimit := by exact_mod_cast hlimit
  have hmpos : (0 : Int) < m := by exact_mod_cast hm
  have hgap : (0 : Int) ≤ s.lowGap a b ∧ (0 : Int) ≤ s.highGap a b :=
    ⟨Int.natCast_nonneg _, Int.natCast_nonneg _⟩
  have hden : (0 : Int) ≤ s.lowDen ∧ (0 : Int) ≤ s.highDen :=
    ⟨Int.natCast_nonneg _, Int.natCast_nonneg _⟩
  rcases lt_trichotomy low 0 with hl | rfl | hl
  · rcases lt_or_ge 0 high with hh | hh
    · have h1 := mul_le_mul_of_nonneg_right (show 1 ≤ -low by omega) hgap.1
      have h2 := mul_le_mul_of_nonneg_right (show 1 ≤ high by omega) hgap.2
      exact Or.inl (h.apart_of_mixed hn (Or.inr (by linarith)))
    · have h1 := mul_nonpos_of_nonpos_of_nonneg hl.le hden.1
      have h2 := mul_nonpos_of_nonpos_of_nonneg hh hden.2
      linarith
  · -- on the axis of the upper fraction
    rw [zero_mul, zero_add] at hmEq hnEq
    have hh : 0 < high := pos_of_mul_pos_left (hmEq ▸ hmpos) hden.2
    obtain ⟨c, rfl⟩ := Int.eq_ofNat_of_zero_le hh.le
    obtain rfl : m = c * s.highDen := by exact_mod_cast hmEq
    obtain rfl : n = c * s.highNum := by exact_mod_cast hnEq
    exact h.high.multiple (Nat.pos_of_mul_pos_right hm) hodd hn
  · rcases lt_trichotomy high 0 with hh | rfl | hh
    · have h1 := mul_le_mul_of_nonneg_right (show 1 ≤ low by omega) hgap.1
      have h2 := mul_le_mul_of_nonneg_right (show 1 ≤ -high by omega) hgap.2
      exact Or.inl (h.apart_of_mixed hn (Or.inl (by linarith)))
    · -- on the axis of the lower fraction
      rw [zero_mul, add_zero] at hmEq hnEq
      obtain ⟨c, rfl⟩ := Int.eq_ofNat_of_zero_le hl.le
      obtain rfl : m = c * s.lowDen := by exact_mod_cast hmEq
      obtain rfl : n = c * s.lowNum := by exact_mod_cast hnEq
      exact h.low.multiple (Nat.pos_of_mul_pos_right hm) hodd hn
    · have h1 := mul_le_mul_of_nonneg_right (show 1 ≤ low by omega) hden.1
      have h2 := mul_le_mul_of_nonneg_right (show 1 ≤ high by omega) hden.2
      linarith

/-- Multipliers are apart, agree or are an exception when the ratio is one at least. -/
theorem Clears.apart_of_le (h : s.Clears exceptions a b) (hb : 0 < b) (hle : b ≤ a) (hm : 0 < m)
    (hodd : n % 2 = 1) (hn : n < midpointLimit) :
    Apart a b m n ∨ m * a = n * b ∨ (m, n) ∈ exceptions := by
  by_cases hlimit : m ≤ midpointLimit
  · exact h.apart hm hlimit hodd hn
  · have hma : (n + 1) * b ≤ m * a := Nat.mul_le_mul (by omega) hle
    rw [Nat.add_mul, Nat.one_mul] at hma
    have hpart : 2 * midpointLimit ≤ roundingPart := by decide
    refine Or.inl (Or.inl ?_)
    calc 2 * (n * b) = 2 * n * b := (Nat.mul_assoc 2 n b).symm
      _ < roundingPart * b := Nat.mul_lt_mul_of_pos_right (by omega) hb
      _ ≤ roundingPart * (m * a - n * b) := Nat.mul_le_mul_left _ (by omega)

end Bracket

/-! ## Powers of two and ten -/

/-- The least power of ten that is not below a power of two. -/
def gridPower (q : Int) : Int := -(-q * 30103 / 100000)

/-- The power of ten next to a power of two, both scaled by their denominators. -/
def ratioNum (q : Int) : Nat := scaleUp (1 * powerOfTen (gridPower q).toNat) (-q)

/-- A power of two, scaled as the power of ten next to it. -/
def ratioDen (q : Int) : Nat := scaleUp 1 q * powerOfTen (-gridPower q).toNat

/-- A decimal that is very near to a midpoint without being it. -/
structure NearMiss where
  /-- The decimal. -/
  decimal : Decimal
  /-- The odd mantissa of the midpoint. -/
  mantissa : Nat
  /-- The power of two of the midpoint. -/
  exponent : Int
  deriving DecidableEq

/-- The only near misses among the decimals that are written for singles. -/
def nearMisses : List NearMiss :=
  [⟨⟨7038531, -32⟩, 22841339, -108⟩, ⟨⟨14077062, -32⟩, 22841339, -107⟩,
    ⟨⟨25645849, -15⟩, 28874659, -50⟩]

/-- The near misses at a power of two, as pairs of multipliers. -/
def missesAt (q : Int) : List (Nat × Nat) :=
  (nearMisses.filter fun miss => miss.exponent = q).map fun miss =>
    (miss.decimal.digits, miss.mantissa)

/-- What holds of the power of ten next to a power of two: it is not below that, the next smaller
one is clearly below, and the multiples of both come near to each other at near misses only. -/
structure Gridded (q : Int) : Prop where
  /-- The power of ten is not below the power of two. -/
  le : ratioDen q ≤ ratioNum q
  /-- The next smaller one is below it by a visible part. -/
  below : scaleUp (2 ^ 20 * powerOfTen (gridPower q - 1).toNat) (-q) ≤
    scaleUp (2 ^ 20 - 1) q * powerOfTen (-(gridPower q - 1)).toNat
  /-- Multiples come near to each other at near misses only. -/
  clears : (Bracket.ofRatio (ratioNum q) (ratioDen q)).Clears (missesAt q) (ratioNum q) (ratioDen q)

instance (q : Int) : Decidable (Gridded q) :=
  decidable_of_iff (ratioDen q ≤ ratioNum q ∧
      scaleUp (2 ^ 20 * powerOfTen (gridPower q - 1).toNat) (-q) ≤
        scaleUp (2 ^ 20 - 1) q * powerOfTen (-(gridPower q - 1)).toNat ∧
      (Bracket.ofRatio (ratioNum q) (ratioDen q)).Clears (missesAt q) (ratioNum q) (ratioDen q))
    ⟨fun ⟨h1, h2, h3⟩ => ⟨h1, h2, h3⟩, fun ⟨h1, h2, h3⟩ => ⟨h1, h2, h3⟩⟩

/-- All powers of two that midpoints of singles have are gridded. -/
theorem gridded {q : Int} (hlow : -150 ≤ q) (hhigh : q ≤ 103) : Gridded q := by
  have hall : ∀ n : Fin 254, Gridded (n - 150) := by decide +kernel
  have h := hall ⟨(q + 150).toNat, by omega⟩
  have hq : ((q + 150).toNat : Int) - 150 = q := by omega
  simp only [hq] at h
  exact h

/-- The decimals of near misses have no zeros to strip and lie on the grid of their midpoint. -/
theorem nearMisses_grid : ∀ miss ∈ nearMisses, miss.decimal.digits % 10 ≠ 0 ∧
    miss.decimal.exponent = gridPower miss.exponent := by
  decide

/-- The two scaled powers are the powers times one positive number. -/
theorem ratio_cast (q : Int) : ∃ scale : ℚ, 0 < scale ∧
    (ratioNum q : ℚ) = 10 ^ gridPower q * scale ∧ (ratioDen q : ℚ) = 2 ^ q * scale := by
  obtain ⟨h1, h2⟩ := dyadic_cmp_decimal 1 1 q (gridPower q)
  refine ⟨2 ^ (-q).toNat * 10 ^ (-gridPower q).toNat, by positivity, ?_, ?_⟩
  · rw [ratioNum, h2, decimal, Nat.cast_one, one_mul]
  · rw [ratioDen, h1, dyadic, Nat.cast_one, one_mul]

/-! ## Decimals and midpoints -/

/-- A decimal keeps its distance from a number: two roundings do not bridge it. -/
def Decimal.Clear (d : Decimal) (r : ℚ) : Prop := 2 * r < roundingPart * |d.value - r|

variable {n : Nat} {q : Int} {d : Decimal}

/-- Pairs of multipliers that are apart are so as numbers. -/
theorem Bracket.Apart.cast {a b m n : Nat} (h : Bracket.Apart a b m n) :
    (2 : ℚ) * (n * b : Nat) < roundingPart * |((m * a : Nat) : ℚ) - (n * b : Nat)| := by
  rcases h with h | h
  · have hle : n * b ≤ m * a := by
      by_contra hc
      rw [Nat.sub_eq_zero_of_le (Nat.le_of_not_le hc)] at h
      omega
    rw [← Nat.cast_sub hle, Nat.abs_cast]
    exact_mod_cast h
  · have hle : m * a ≤ n * b := by
      by_contra hc
      rw [Nat.sub_eq_zero_of_le (Nat.le_of_not_le hc)] at h
      omega
    rw [abs_sub_comm, ← Nat.cast_sub hle, Nat.abs_cast]
    exact_mod_cast h

/-- A decimal on the grid of a power of two whose multiplier is that of a near miss is the near
miss. -/
theorem nearMiss_of_missesAt {k : Nat} (hk : d.exponent = gridPower q + k)
    (h : (d.digits * 10 ^ k, n) ∈ missesAt q) : ⟨d, n, q⟩ ∈ nearMisses := by
  obtain ⟨⟨⟨digits, exponent⟩, mantissa, power⟩, hfound, heq⟩ := List.mem_map.mp h
  obtain ⟨hmem, hexp⟩ := List.mem_filter.mp hfound
  obtain ⟨hten, hpower⟩ := nearMisses_grid _ hmem
  obtain ⟨hdigits, rfl⟩ := Prod.mk.inj heq
  obtain rfl : power = q := of_decide_eq_true hexp
  dsimp only at hten hpower hdigits
  cases k with
  | zero =>
    obtain ⟨digits', exponent'⟩ := d
    dsimp only at hdigits hk
    obtain rfl : digits = digits' := by omega
    obtain rfl : exponent = exponent' := by omega
    exact hmem
  | succ k =>
    rw [hdigits, Nat.pow_succ, ← Nat.mul_assoc, Nat.mul_mod_left] at hten
    exact absurd rfl hten

/-- A multiple of the power of ten next to a power of two is clear of a midpoint, is the midpoint or
is a near miss. -/
theorem Decimal.clear_of_grid (hlow : -150 ≤ q) (hhigh : q ≤ 103) (hodd : n % 2 = 1)
    (hn : n < midpointLimit) (hpos : 0 < d.digits) (hgrid : gridPower q ≤ d.exponent) :
    d.Clear (dyadic n q) ∨ d.value = dyadic n q ∨ ⟨d, n, q⟩ ∈ nearMisses := by
  obtain ⟨scale, hscale, hnum, hden⟩ := ratio_cast q
  have hg := gridded hlow hhigh
  obtain ⟨k, hk⟩ := Int.eq_ofNat_of_zero_le (Int.sub_nonneg_of_le hgrid)
  have hexponent : d.exponent = gridPower q + k := by omega
  have hmpos : 0 < d.digits * 10 ^ k := Nat.mul_pos hpos (Nat.pow_pos (by decide))
  have hdenpos : 0 < ratioDen q := by
    have hcast : (0 : ℚ) < ratioDen q := by
      rw [hden]
      exact mul_pos (two_zpow_pos q) hscale
    exact_mod_cast hcast
  have hvalue : d.value * scale = (d.digits * 10 ^ k * ratioNum q : Nat) := by
    rw [Nat.cast_mul, hnum, Decimal.value, decimal, hexponent, zpow_add₀ (by norm_num),
      zpow_natCast]
    push_cast
    ring
  have hmid : dyadic n q * scale = (n * ratioDen q : Nat) := by
    rw [Nat.cast_mul, hden, dyadic]
    ring
  rcases hg.clears.apart_of_le hdenpos hg.le hmpos hodd hn with h | h | h
  · have hscaled := h.cast
    rw [← hvalue, ← hmid, ← sub_mul, abs_mul, abs_of_pos hscale, ← mul_assoc, ← mul_assoc] at hscaled
    exact Or.inl (lt_of_mul_lt_mul_right hscaled hscale.le)
  · have heq : d.value * scale = dyadic n q * scale := by rw [hvalue, hmid, h]
    exact Or.inr (Or.inl (mul_right_cancel₀ hscale.ne' heq))
  · exact Or.inr (Or.inr (nearMiss_of_missesAt hexponent h))

/-- A decimal that is a neighbour of a number on some grid is clear of a midpoint next to the number,
is the midpoint or is a near miss. -/
theorem Decimal.clear_of_neighbour {x : ℚ} (hlow : -150 ≤ q) (hhigh : q ≤ 103) (hodd : n % 2 = 1)
    (hn : n < midpointLimit) (hpos : 0 < d.digits) (hnext : |dyadic n q - x| = 2 ^ q)
    (hneighbour : ∃ power ≤ d.exponent, |d.value - x| ≤ 10 ^ power) :
    d.Clear (dyadic n q) ∨ d.value = dyadic n q ∨ ⟨d, n, q⟩ ∈ nearMisses := by
  obtain ⟨power, hpower, hnear⟩ := hneighbour
  rcases le_or_gt (gridPower q) power with hle | hlt
  · exact clear_of_grid hlow hhigh hodd hn hpos (hle.trans hpower)
  · -- the grid is finer than the way from the number to the midpoint
    refine Or.inl ?_
    have hfine : (2 : ℚ) ^ 20 * 10 ^ power ≤ (2 ^ 20 - 1) * 2 ^ q := by
      have hbelow := decimal_le_dyadic_iff.mp (gridded hlow hhigh).below
      rw [decimal, dyadic] at hbelow
      push_cast at hbelow
      have hmono : (10 : ℚ) ^ power ≤ 10 ^ (gridPower q - 1) :=
        zpow_le_zpow_right₀ (by norm_num) (by omega)
      linarith
    have hnq : (n : ℚ) * 2 ^ q ≤ 2 ^ 25 * 2 ^ q := by
      refine mul_le_mul_of_nonneg_right ?_ (two_zpow_pos q).le
      exact_mod_cast hn.le
    have htriangle := abs_sub_le (dyadic n q) d.value x
    rw [hnext, abs_sub_comm (dyadic n q)] at htriangle
    have hpart : (roundingPart : ℚ) = 2 ^ 53 - 3 := by norm_num [roundingPart]
    have hp := two_zpow_pos q
    rw [Decimal.Clear, hpart]
    rw [dyadic] at htriangle ⊢
    nlinarith

end NetTrial.Number
