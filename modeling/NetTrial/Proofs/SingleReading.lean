import NetTrial.Json.Decoder
import NetTrial.Proofs.DecimalReading
import NetTrial.Proofs.Midpoints
/-!
# Singles are read back

The fewest digits of a single are read in two roundings to double precision and one to single
precision. The first two keep the decimal on its side of the ends of the interval of the single, or
at an end, because a decimal that is near to an end is far enough from it or is it; the few decimals
that come nearer are computed. So the last rounding gives the single.
-/

namespace NetTrial.Number

variable {m n : Nat} {e q : Int} {d lead : Decimal} {v r mid x : ℚ}

/-! ## Sides -/

/-- Two numbers lie on one side of a third, or both are it. -/
def SameSide (r v mid : ℚ) : Prop := (r < mid ↔ v < mid) ∧ (mid < r ↔ mid < v)

theorem SameSide.of_lt (hr : r < mid) (hv : v < mid) : SameSide r v mid :=
  ⟨iff_of_true hr hv, iff_of_false hr.le.not_gt hv.le.not_gt⟩

theorem SameSide.of_gt (hr : mid < r) (hv : mid < v) : SameSide r v mid :=
  ⟨iff_of_false hr.le.not_gt hv.le.not_gt, iff_of_true hr hv⟩

/-- Two roundings do not carry a decimal across a number that it is clear of. -/
theorem Decimal.Clear.sameSide (h : d.Clear mid) (hmid : 0 < mid)
    (hnear : |v - d.value| * (2 ^ 53 - 1) ≤ 2 * d.value) : SameSide d.value v mid := by
  have hpart : (roundingPart : ℚ) = 2 ^ 53 - 3 := by norm_num [roundingPart]
  rw [Decimal.Clear, hpart] at h
  have hlow : -|v - d.value| ≤ v - d.value := neg_abs_le _
  have hhigh : v - d.value ≤ |v - d.value| := le_abs_self _
  rcases lt_trichotomy d.value mid with hlt | heq | hgt
  · rw [abs_of_neg (sub_neg.mpr hlt)] at h
    exact .of_lt hlt (by linarith)
  · rw [heq, sub_self, abs_zero] at h
    linarith
  · rw [abs_of_pos (sub_pos.mpr hgt)] at h
    exact .of_gt hgt (by linarith)

/-! ## Decimals that are midpoints -/

theorem five_pow_le_of_dvd {a k : Nat} (h : 5 ^ k ∣ n * 2 ^ a) (hn : 0 < n) : 5 ^ k ≤ n := by
  have hcoprime : Nat.Coprime (5 ^ k) (2 ^ a) := Nat.Coprime.pow k a (by decide)
  exact Nat.le_of_dvd hn (hcoprime.dvd_of_dvd_mul_right h)

/-- A short decimal that is a midpoint has a small power of ten: the fives of the power divide the
mantissa or the digits. -/
theorem Decimal.exponent_of_midpoint (hn : 0 < n) (hlimit : n < midpointLimit) (hpos : 0 < d.digits)
    (hshort : d.digits ≤ 10 ^ 9) (h : d.value = dyadic n q) :
    -22 ≤ d.exponent ∧ d.exponent ≤ 22 := by
  have heq : scaleUp n q * powerOfTen (-d.exponent).toNat =
      scaleUp (d.digits * powerOfTen d.exponent.toNat) (-q) :=
    le_antisymm (dyadic_le_decimal_iff.mpr h.ge) (decimal_le_dyadic_iff.mpr h.le)
  have hten : ∀ k, powerOfTen k = 5 ^ k * 2 ^ k := by
    intro k
    rw [powerOfTen_eq, ← Nat.mul_pow]
  have hfive : midpointLimit ≤ 5 ^ 13 ∧ 10 ^ 9 < 5 ^ 13 := by decide
  simp only [scaleUp, Nat.shiftLeft_eq, hten] at heq
  constructor
  · -- below one the fives of the power divide the digits
    by_contra hc
    obtain ⟨k, hk⟩ := Int.eq_ofNat_of_zero_le (by omega : 0 ≤ -d.exponent)
    have hk0 : d.exponent.toNat = 0 := by omega
    have htoNat : (-d.exponent).toNat = k := by omega
    rw [hk0, htoNat, Nat.pow_zero, Nat.pow_zero, Nat.mul_one] at heq
    have hdvd : 5 ^ k ∣ d.digits * 2 ^ (-q).toNat := by
      rw [← heq]
      exact Dvd.dvd.mul_left (Nat.dvd_mul_right _ _) _
    have hle := five_pow_le_of_dvd hdvd hpos
    have hmono : 5 ^ 13 ≤ 5 ^ k := Nat.pow_le_pow_right (by decide) (by omega)
    omega
  · -- above one they divide the mantissa
    by_contra hc
    obtain ⟨k, hk⟩ := Int.eq_ofNat_of_zero_le (by omega : 0 ≤ d.exponent)
    have hk0 : (-d.exponent).toNat = 0 := by omega
    have htoNat : d.exponent.toNat = k := by omega
    rw [hk0, htoNat, Nat.pow_zero, Nat.pow_zero, Nat.mul_one] at heq
    have hdvd : 5 ^ k ∣ n * 2 ^ q.toNat := by
      rw [heq]
      exact ((Nat.dvd_mul_right _ _).mul_left _).mul_right _
    have hle := five_pow_le_of_dvd hdvd hn
    have hmono : 5 ^ 13 ≤ 5 ^ k := Nat.pow_le_pow_right (by decide) (by omega)
    omega

/-! ## Near misses -/

/-- A number that stands for a bit pattern is the only one. -/
theorem Format.Stands.unique {f : Format} {bits : Nat} {negative : Bool} (h : f.Stands bits negative v)
    (h' : f.decode bits = .finite negative m e) : v = dyadic m e := by
  obtain ⟨m', e', hd, rfl⟩ := h
  rw [hd] at h'
  cases h'
  rfl

/-- What the near misses are read as lies on their side of the midpoint. -/
theorem nearMisses_sameSide : ∀ miss ∈ nearMisses, miss.decimal.exponent < 0 ∧ ∀ v,
    Format.double.Stands miss.decimal.scaled false v →
      SameSide miss.decimal.value v (dyadic miss.mantissa miss.exponent) := by
  rw [nearMisses]
  intro miss hmiss
  simp only [List.mem_cons, List.not_mem_nil, or_false] at hmiss
  rcases hmiss with rfl | rfl | rfl
  · refine ⟨by decide, fun v hv => ?_⟩
    have hdecode : Format.double.decode (Decimal.scaled ⟨7038531, -32⟩) =
        .finite false 6131425250115583 (-136) := rfl
    rw [hv.unique hdecode]
    apply SameSide.of_lt <;> norm_num [Decimal.value, decimal, dyadic]
  · refine ⟨by decide, fun v hv => ?_⟩
    have hdecode : Format.double.decode (Decimal.scaled ⟨14077062, -32⟩) =
        .finite false 6131425250115583 (-135) := rfl
    rw [hv.unique hdecode]
    apply SameSide.of_lt <;> norm_num [Decimal.value, decimal, dyadic]
  · refine ⟨by decide, fun v hv => ?_⟩
    have hdecode : Format.double.decode (Decimal.scaled ⟨25645849, -15⟩) =
        .finite false 7750982255509505 (-78) := rfl
    rw [hv.unique hdecode]
    apply SameSide.of_gt <;> norm_num [Decimal.value, decimal, dyadic]

/-! ## Reading keeps the sides of midpoints -/

/-- A midpoint next to a number. -/
def Midpoint (x mid : ℚ) : Prop :=
  ∃ n q, n % 2 = 1 ∧ n < midpointLimit ∧ -150 ≤ q ∧ q ≤ 103 ∧ mid = dyadic n q ∧ |mid - x| = 2 ^ q

/-- The decimal that the leading digits of a spelled decimal are: the decimal itself, or with an
exponent that is no negative number its natural with the zero behind the point. -/
def LeadsWith (d lead : Decimal) : Prop :=
  lead = d ∨ 0 ≤ d.exponent ∧ lead.exponent = -1 ∧ lead.value = d.value

/-- What the fewest digits of a number are read as lies on their side of a midpoint. -/
theorem sameSide_of_readAs (hmid : Midpoint x mid) (hpos : 0 < d.digits) (hshort : d.digits ≤ 10 ^ 9)
    (hneighbour : ∃ power ≤ d.exponent, |d.value - x| ≤ 10 ^ power) (hlead : LeadsWith d lead)
    (hv : lead.ReadAs lead.scaled v) : SameSide d.value v mid := by
  obtain ⟨n, q, hodd, hlimit, hlow, hhigh, rfl, hnext⟩ := hmid
  have hn : 0 < n := by omega
  have hvalue : lead.value = d.value := by
    rcases hlead with rfl | ⟨-, -, h⟩
    · rfl
    · exact h
  have hnear := hv.near
  have hexact := hv.exact
  rw [hvalue] at hnear hexact
  rcases Decimal.clear_of_neighbour hlow hhigh hodd hlimit hpos hnext hneighbour with h | h | h
  · exact h.sameSide (dyadic_pos_iff.mpr hn) hnear
  · have hsmall := Decimal.exponent_of_midpoint hn hlimit hpos hshort h
    have hexponent : -22 ≤ lead.exponent ∧ lead.exponent ≤ 22 := by
      rcases hlead with rfl | ⟨-, h1, -⟩
      · exact hsmall
      · omega
    have hword : midpointLimit ≤ 2 ^ 53 := by decide
    rw [hexact hexponent.1 hexponent.2 n q h (by omega)]
    exact ⟨Iff.rfl, Iff.rfl⟩
  · obtain ⟨hneg, hside⟩ := nearMisses_sameSide _ h
    rcases hlead with rfl | ⟨hsign, -, -⟩
    · exact hside v hv.stands
    · exact absurd hneg (not_lt.mpr hsign)

/-! ## The interval of a single -/

/-- The ends of the interval of a single are midpoints next to it. -/
theorem ends_midpoints (h : Format.single.Legal m e) :
    Midpoint (dyadic m e)
        (dyadic (Interval.around .single m e).low (Interval.around .single m e).exponent) ∧
      Midpoint (dyadic m e)
        (dyadic (Interval.around .single m e).high (Interval.around .single m e).exponent) := by
  obtain ⟨hm, hleast, htop, -⟩ := h.single
  have hpos := h.pos
  have hhalf : (2 : ℚ) ^ e = 2 * 2 ^ (e - 1) := by
    rw [← zpow_one_add₀ two_ne_zero]
    congr 1
    ring
  have hquarter : (2 : ℚ) ^ (e - 1) = 2 * 2 ^ (e - 2) := by
    rw [← zpow_one_add₀ two_ne_zero]
    congr 1
    ring
  have hlimit : midpointLimit = 2 ^ 25 := rfl
  have hrange : Format.single.fractionRange = 2 ^ 23 := by decide
  constructor
  · have hlow : (Interval.around .single m e).low = 4 * m - Interval.reach .single m e := rfl
    have hexponent : (Interval.around .single m e).exponent = e - 2 := rfl
    rw [hlow, hexponent, Interval.reach]
    split
    · rename_i hnarrow
      refine ⟨4 * m - 1, e - 2, by omega, ?_, ?_, by omega, rfl, ?_⟩
      · omega
      · have hfoot : Format.single.leastExponent = -149 := by decide
        omega
      · rw [dyadic, dyadic, hhalf, hquarter, Nat.cast_sub (by omega), abs_sub_comm]
        push_cast
        rw [abs_of_nonneg (by linarith [two_zpow_pos (e - 2)])]
        ring
    · refine ⟨2 * m - 1, e - 1, by omega, by omega, by omega, by omega, ?_, ?_⟩
      · rw [dyadic, dyadic, hquarter, Nat.cast_sub (by omega), Nat.cast_sub (by omega)]
        push_cast
        ring
      · rw [dyadic, dyadic, hhalf, hquarter, Nat.cast_sub (by omega), abs_sub_comm]
        push_cast
        rw [abs_of_nonneg (by linarith [two_zpow_pos (e - 2)])]
        ring
  · change Midpoint (dyadic m e) (dyadic (4 * m + 2) (e - 2))
    refine ⟨2 * m + 1, e - 1, by omega, by omega, by omega, by omega, ?_, ?_⟩
    · rw [dyadic, dyadic, hquarter]
      push_cast
      ring
    · rw [dyadic, dyadic, hhalf, hquarter]
      push_cast
      rw [abs_of_nonneg (by linarith [two_zpow_pos (e - 2)])]
      ring

/-- A number on one side of both ends with a number in an interval is in it too. -/
theorem Interval.Contains.of_sameSide {i : Interval} (h : i.Contains r)
    (hlow : SameSide r v (dyadic i.low i.exponent))
    (hhigh : SameSide r v (dyadic i.high i.exponent)) : i.Contains v := by
  rw [Contains] at h ⊢
  split at h
  · rename_i hc
    rw [if_pos hc, ← not_lt, ← not_lt, ← hlow.1, ← hhigh.2, not_lt, not_lt]
    exact h
  · rename_i hc
    rw [if_neg hc, ← hlow.2, ← hhigh.1]
    exact h

/-- The fewest digits of a single have a moderate power of ten. -/
theorem Shortest.exponent_bounds (h : Format.single.Legal m e) (hd : Shortest m e d) :
    -60 ≤ d.exponent ∧ d.exponent ≤ 60 := by
  obtain ⟨hm, hleast, htop, -⟩ := h.single
  obtain ⟨hlow, hhigh, -⟩ := (Interval.contains_around_iff h.pos).mp hd.contains
  have hp := ten_zpow_pos d.exponent
  have hdone : (1 : ℚ) ≤ d.digits := by exact_mod_cast hd.pos
  have hdtop : (d.digits : ℚ) ≤ 10 ^ 9 := by exact_mod_cast hd.short
  have hmone : (1 : ℚ) ≤ m := by exact_mod_cast h.pos
  have hmtop : (m : ℚ) ≤ 2 ^ 24 := by exact_mod_cast hm.le
  have hg := two_zpow_pos (e - 2)
  rw [Decimal.value, decimal] at hlow hhigh
  constructor
  · have hfoot : (2 : ℚ) ^ (-151 : Int) ≤ 2 ^ (e - 2) :=
      zpow_le_zpow_right₀ one_le_two (by omega)
    have hreach : (Interval.reach .single m e : ℚ) ≤ 2 := by
      exact_mod_cast Interval.reach_le .single m e
    have hten : (10 : ℚ) ^ (-55 : Int) ≤ 10 ^ d.exponent := by
      have hstart : (10 : ℚ) ^ 9 * 10 ^ (-55 : Int) ≤ 2 ^ (-151 : Int) := by norm_num
      nlinarith
    have hle := (zpow_le_zpow_iff_right₀ (by norm_num : (1 : ℚ) < 10)).mp hten
    omega
  · have hhead : (2 : ℚ) ^ (e - 2) ≤ 2 ^ (102 : Int) :=
      zpow_le_zpow_right₀ one_le_two (by omega)
    have hten : (10 : ℚ) ^ d.exponent ≤ 10 ^ (40 : Int) := by
      have hend : (2 : ℚ) ^ 27 * 2 ^ (102 : Int) ≤ 10 ^ (40 : Int) := by norm_num
      nlinarith
    have hle := (zpow_le_zpow_iff_right₀ (by norm_num : (1 : ℚ) < 10)).mp hten
    omega

/-- What the fewest digits of a single are read as lies in the interval of the single. -/
theorem Shortest.contains_readAs (h : Format.single.Legal m e) (hd : Shortest m e d)
    (hlead : LeadsWith d lead) (hv : lead.ReadAs lead.scaled v) :
    (Interval.around .single m e).Contains v := by
  obtain ⟨hlow, hhigh⟩ := ends_midpoints h
  exact hd.contains.of_sameSide
    (sameSide_of_readAs hlow hd.pos hd.short hd.neighbour hlead hv)
    (sameSide_of_readAs hhigh hd.pos hd.short hd.neighbour hlead hv)

/-- The leading digits of the fewest digits of a single as a document spells them. -/
theorem Shortest.leading (h : Format.single.Legal m e) (hd : Shortest m e d) (negative : Bool) :
    ∃ v, LeadsWith d (Spelling.ofDecimal .single negative d).leading ∧
      (Spelling.ofDecimal .single negative d).leading.ReadAs
        (Spelling.ofDecimal .single negative d).leading.scaled v := by
  obtain ⟨hlow, hhigh⟩ := hd.exponent_bounds h
  have hshort := hd.short
  have hlimit : 10 ^ 14 < 2 ^ 53 := by decide
  rcases Spelling.leading_ofDecimal negative hd.pos hd.short with heq | ⟨k, hk, hsmall, heq⟩
  · rw [heq]
    obtain ⟨v, hv⟩ := Decimal.scaled_near hd.pos (by omega) hlow hhigh
    exact ⟨v, Or.inl rfl, hv⟩
  · rw [heq]
    have hpos : 0 < d.digits * 10 ^ (k + 1) := Nat.mul_pos hd.pos (Nat.pow_pos (by decide))
    obtain ⟨v, hv⟩ := Decimal.scaled_near (d := ⟨d.digits * 10 ^ (k + 1), -1⟩) hpos
      (hsmall.trans hlimit) (show (-60 : Int) ≤ -1 by decide) (show (-1 : Int) ≤ 60 by decide)
    refine ⟨v, Or.inr ⟨by omega, rfl, ?_⟩, hv⟩
    rw [Decimal.value, Decimal.value, decimal, decimal, hk, zpow_natCast, Nat.cast_mul,
      Nat.cast_pow, pow_succ, zpow_neg_one]
    norm_num
    ring

/-! ## Words -/

/-- A finite pattern with a sign stands for the number that it stands for without. -/
theorem Format.Stands.signed {f : Format} {bits : Nat} (h : f.Stands bits false v)
    (hlt : bits < f.infinity) (negative : Bool) :
    f.Stands (f.signBit negative + bits) negative v := by
  obtain ⟨m, e, hd, rfl⟩ := h
  have hplain : f.decode (f.signBit false + bits) = _ := decode_signBit_add hlt
  have hzero : f.signBit false = 0 := rfl
  rw [hzero, Nat.zero_add, hd] at hplain
  rw [Stands, decode_signBit_add hlt]
  split at hplain
  · rename_i hz
    rw [if_pos hz]
    cases hplain
    exact ⟨_, _, rfl, rfl⟩
  · rename_i hz
    rw [if_neg hz]
    cases hplain
    exact ⟨_, _, rfl, rfl⟩

theorem signBit_double_add_lt {bits : Nat} (h : bits < Format.double.infinity) (negative : Bool) :
    Format.double.signBit negative + bits < 2 ^ 64 := by
  have hinfinity : Format.double.infinity < 2 ^ 63 := by decide
  have hsign : Format.double.signBit negative ≤ 2 ^ 63 := by
    cases negative <;> decide
  omega

/-- A spelled number whose magnitude is finite is read with its sign. -/
theorem toDouble?_of_readAs {s : Spelling} (hv : s.leading.ReadAs s.leading.scaled v) :
    ∃ x, s.toDouble? = some x ∧ Format.double.Stands x.bits.toNat s.negative v := by
  refine ⟨⟨(Format.double.signBit s.negative + s.leading.scaled).toUInt64⟩, ?_, ?_⟩
  · simp only [Spelling.toDouble?, if_pos hv.lt]
  · have hlt := signBit_double_add_lt hv.lt s.negative
    simp only [Nat.toUInt64, UInt64.toNat_ofNat']
    rw [Nat.mod_eq_of_lt hlt]
    exact hv.stands.signed hv.lt s.negative

end NetTrial.Number

namespace NetTrial

open Number

/-- A double-precision number in the interval of a single is that single in single precision. -/
theorem Single.ofDouble_of_contains {x : Single} {y : Double} {negative : Bool} {m : Nat} {e : Int}
    {v : ℚ} (hx : Format.single.decode x.bits.toNat = .finite negative m e)
    (hlegal : Format.single.Legal m e) (hy : Format.double.Stands y.bits.toNat negative v)
    (hpos : 0 < v) (hv : (Interval.around .single m e).Contains v) : Single.ofDouble y = x := by
  obtain ⟨n, k, hdecode, rfl⟩ := hy
  have hbits := (Format.eq_pack_of_decode x.bits.toNat_lt hx).1
  have hnum : 0 < scaleUp n k := scaleUp_pos (dyadic_pos_iff.mp hpos) k
  rw [← scaleUp_div_one] at hv
  have hround := Interval.roundMagnitude_of_contains hlegal hnum (scaleUp_pos Nat.one_pos _) hv
  have hword : (Format.single.round negative (scaleUp n k) (scaleUp 1 (-k))) = x.bits.toNat := by
    rw [Format.round, hround, ← hbits]
  rw [Single.ofDouble, Double.value, hdecode, Value.encode, hword]
  cases x
  simp [Nat.toUInt32]

namespace Single

variable {x : Single}

/-- A finite word stands for a number. -/
theorem exists_decode (h : x.isExtreme = false) :
    ∃ negative m e, Format.single.decode x.bits.toNat = .finite negative m e := by
  have hfield : Format.single.exponentField x.bits.toNat ≠ Format.single.topExponent := by
    simpa [isExtreme] using h
  rw [Format.decode, if_neg hfield]
  split
  · exact ⟨_, _, _, rfl⟩
  · exact ⟨_, _, _, rfl⟩

/-- An infinity, and what is no number, is written as null. -/
theorem json_of_isExtreme (h : x.isExtreme = true) : Json.single x = .null := by
  have hfield : Format.single.exponentField x.bits.toNat = Format.single.topExponent := by
    simpa [isExtreme] using h
  rw [Json.single, Spelling.ofBits?, Format.decode, if_pos hfield]
  split
  · rename_i heq
    split at heq <;> cases heq
  · rfl

/-- The spelling of a decimal is no integer. -/
theorem isWord_ofDecimal (range : PlainRange) (negative : Bool) (d : Decimal) :
    Json.isWord (Spelling.ofDecimal range negative d) = false := by
  have hintegral : (Spelling.ofDecimal range negative d).isIntegral = false := by
    simp only [Spelling.ofDecimal]
    split
    · rfl
    · split
      · split
        · rfl
        · rename_i hsign
          obtain ⟨k, hk⟩ := Nat.exists_eq_succ_of_ne_zero
            (by omega : (-d.exponent).toNat ≠ 0)
          rw [hk]
          rfl
      · simp [Spelling.isIntegral]
  rw [Json.isWord, hintegral, Bool.false_and]

/-- The sign of the spelling of a decimal. -/
theorem negative_ofDecimal (range : PlainRange) (negative : Bool) (d : Decimal) :
    (Spelling.ofDecimal range negative d).negative = negative := by
  simp only [Spelling.ofDecimal]
  split
  · rfl
  · split
    · split <;> rfl
    · rfl

/-- Zero is read back with its sign. -/
theorem zero_reads_back (negative : Bool) :
    ∃ y, (Spelling.ofDecimal .single negative ⟨0, 0⟩).toDouble? = some y ∧
      (ofDouble y).bits.toNat = Format.single.signBit negative := by
  cases negative
  · exact ⟨⟨0⟩, rfl, rfl⟩
  · exact ⟨⟨0x8000000000000000⟩, rfl, rfl⟩

/-- A finite word is written as a number that is read back as the word. -/
theorem exists_spelling (h : x.isExtreme = false) :
    ∃ s y, Json.single x = .number s ∧ Json.isWord s = false ∧ s.toDouble? = some y ∧
      ofDouble y = x := by
  obtain ⟨negative, m, e, hdecode⟩ := exists_decode h
  refine ⟨Spelling.ofDecimal .single negative (shortest .single .even m e), ?_⟩
  have hjson : Json.single x =
      .number (Spelling.ofDecimal .single negative (shortest .single .even m e)) := by
    rw [Json.single, Spelling.ofBits?, hdecode]
    rfl
  obtain ⟨hbits, hlegal | ⟨rfl, rfl⟩⟩ := Format.eq_pack_of_decode x.bits.toNat_lt hdecode
  · have hd := shortest_spec hlegal
    obtain ⟨v, hlead, hv⟩ := hd.leading hlegal negative
    obtain ⟨y, hy, hstands⟩ := toDouble?_of_readAs hv
    have hcontains := hd.contains_readAs hlegal hlead hv
    rw [negative_ofDecimal] at hstands
    exact ⟨y, hjson, isWord_ofDecimal .., hy,
      ofDouble_of_contains hdecode hlegal hstands (hcontains.pos hlegal.pos) hcontains⟩
  · obtain ⟨y, hy, hread⟩ := zero_reads_back negative
    have hzero : shortest .single .even 0 Format.single.leastExponent = ⟨0, 0⟩ := rfl
    rw [hzero] at hjson ⊢
    rw [sub_self, Int.toNat_zero, Nat.zero_mul, Nat.add_zero, ← hread] at hbits
    refine ⟨y, hjson, isWord_ofDecimal .., hy, ?_⟩
    exact congrArg mk (UInt32.toNat_inj.mp hbits.symm)

end Single

namespace Json

/-- A single is read back from its document exactly when it is finite. -/
theorem asSingle_single_iff (x : Single) : asSingle (single x) = .ok x ↔ x.isExtreme = false := by
  constructor
  · intro h
    by_contra hc
    rw [Bool.not_eq_false] at hc
    rw [Single.json_of_isExtreme hc] at h
    cases h
  · intro h
    obtain ⟨s, y, hjson, hword, hdouble, heq⟩ := Single.exists_spelling h
    rw [hjson, asSingle, hword, hdouble, ← heq]
    rfl

end Json

end NetTrial
