import NetTrial.Number.Double
import NetTrial.Proofs.Comparisons
import NetTrial.Proofs.Rounding
/-!
# The order of double-precision numbers

Each finite pattern stands for a number of steps of the least exponent, and the patterns below
infinity are ordered as their steps are. So words that are not below zero are ordered by their
magnitudes as the numbers are that they stand for, infinity above all. The error of an element is a
word without a sign, and always a number: a difference that is none counts as infinite.
-/

namespace NetTrial

open Number

/-! ## Patterns in steps -/

namespace Number.Format

variable {f : Format} {a b bits : Nat} {negative : Bool}

/-- How many steps of the least exponent a finite pattern without a sign stands for. -/
def steps (f : Format) (bits : Nat) : Nat :=
  if f.exponentField bits = 0 then f.fraction bits
  else (f.fraction bits + f.fractionRange) * 2 ^ (f.exponentField bits - 1)

theorem exponentField_of_lt (h : bits < f.infinity) :
    f.exponentField bits = bits / f.fractionRange ∧ f.exponentField bits < f.topExponent := by
  have hdiv : bits / f.fractionRange < f.topExponent :=
    (Nat.div_lt_iff_lt_mul f.fractionRange_pos).mpr h
  have htop : f.topExponent ≤ f.exponentRange := Nat.sub_le ..
  have hfield : f.exponentField bits = bits / f.fractionRange :=
    Nat.mod_eq_of_lt (hdiv.trans_le htop)
  exact ⟨hfield, hfield ▸ hdiv⟩

/-- From infinity on a pattern stands for no finite number. -/
theorem decode_of_le (h : f.infinity ≤ bits) (hlt : bits < f.fractionRange * f.exponentRange) :
    f.decode (f.signBit negative + bits) =
      if bits = f.infinity then .infinite negative else .notANumber := by
  have hpos := f.fractionRange_pos
  have hsplit := Nat.div_add_mod bits f.fractionRange
  have hfield : f.exponentField bits = f.topExponent := by
    have hle : f.topExponent ≤ bits / f.fractionRange := (Nat.le_div_iff_mul_le hpos).mpr h
    have hrange : bits / f.fractionRange < f.exponentRange := Nat.div_lt_of_lt_mul hlt
    rw [exponentField, Nat.mod_eq_of_lt hrange]
    rw [topExponent] at hle ⊢
    omega
  have hquotient : bits / f.fractionRange = f.topExponent := by
    rwa [exponentField, Nat.mod_eq_of_lt (Nat.div_lt_of_lt_mul hlt)] at hfield
  have hfraction : f.fraction bits = 0 ↔ bits = f.infinity := by
    rw [hquotient, mul_comm] at hsplit
    rw [fraction, infinity]
    omega
  rw [decode, fraction_signBit_add, exponentField_signBit_add, isNegative_signBit_add hlt,
    if_pos hfield]
  simp only [hfraction]

/-- Patterns of one exponent stay below the next power of two. -/
theorem steps_lt (f : Format) (bits : Nat) :
    f.steps bits < f.fractionRange * 2 ^ f.exponentField bits := by
  have hfraction : f.fraction bits < f.fractionRange := Nat.mod_lt _ f.fractionRange_pos
  rw [steps]
  by_cases hzero : f.exponentField bits = 0
  · rw [if_pos hzero, hzero, pow_zero, mul_one]
    exact hfraction
  · have hpow : 2 ^ f.exponentField bits = 2 * 2 ^ (f.exponentField bits - 1) := by
      rw [← pow_succ', Nat.sub_add_cancel (Nat.pos_of_ne_zero hzero)]
    rw [if_neg hzero, hpow, ← mul_assoc]
    exact Nat.mul_lt_mul_of_pos_right (by omega) (by positivity)

/-- Patterns with an exponent reach its power of two. -/
theorem le_steps (h : f.exponentField bits ≠ 0) :
    f.fractionRange * 2 ^ (f.exponentField bits - 1) ≤ f.steps bits := by
  rw [steps, if_neg h]
  exact Nat.mul_le_mul_right _ (Nat.le_add_left ..)

/-- Finite patterns without a sign are ordered as what they stand for. -/
theorem steps_strictMono (hlt : a < b) (h : b < f.infinity) : f.steps a < f.steps b := by
  have hsplita := Nat.div_add_mod a f.fractionRange
  have hsplitb := Nat.div_add_mod b f.fractionRange
  obtain ⟨hfielda, -⟩ := exponentField_of_lt (hlt.trans h)
  obtain ⟨hfieldb, -⟩ := exponentField_of_lt h
  have hle : f.exponentField a ≤ f.exponentField b := by
    rw [hfielda, hfieldb]
    exact Nat.div_le_div_right hlt.le
  rcases hle.lt_or_eq with hless | hsame
  · have hpow : 2 ^ f.exponentField a ≤ 2 ^ (f.exponentField b - 1) :=
      Nat.pow_le_pow_right two_pos (by omega)
    calc f.steps a < f.fractionRange * 2 ^ f.exponentField a := f.steps_lt a
      _ ≤ f.fractionRange * 2 ^ (f.exponentField b - 1) := Nat.mul_le_mul_left _ hpow
      _ ≤ f.steps b := le_steps (by omega)
  · have hquotients : a / f.fractionRange = b / f.fractionRange := hfielda ▸ hfieldb ▸ hsame
    have hfraction : f.fraction a < f.fraction b := by
      rw [hquotients] at hsplita
      simp only [fraction]
      omega
    rw [steps, steps, hsame]
    by_cases hzero : f.exponentField b = 0
    · rw [if_pos hzero, if_pos hzero]
      exact hfraction
    · rw [if_neg hzero, if_neg hzero]
      exact Nat.mul_lt_mul_of_pos_right (by omega) (by positivity)

theorem steps_zero (f : Format) : f.steps 0 = 0 := by
  rw [steps, exponentField, fraction, Nat.zero_div, Nat.zero_mod, Nat.zero_mod, if_pos rfl]

/-- A finite pattern with a sign stands for its steps. -/
theorem stands_steps (h : bits < f.infinity) :
    f.Stands (f.signBit negative + bits) negative (dyadic (f.steps bits) f.leastExponent) := by
  rw [Stands, decode_signBit_add h, steps]
  by_cases hzero : f.exponentField bits = 0
  · rw [if_pos hzero, if_pos hzero]
    exact ⟨_, _, rfl, rfl⟩
  · rw [if_neg hzero, if_neg hzero]
    refine ⟨_, _, rfl, ?_⟩
    rw [dyadic, dyadic, zpow_add₀ two_ne_zero, zpow_natCast]
    push_cast
    ring

end Number.Format

/-! ## Numbers with infinities -/

/-- The numbers and two infinities, in their usual order. -/
abbrev Extended := WithBot (WithTop ℚ)

/-- A number between the infinities. -/
def Extended.finite (q : ℚ) : Extended := ((q : WithTop ℚ) : WithBot (WithTop ℚ))

theorem Extended.finite_inj {p q : ℚ} (h : finite p = finite q) : p = q :=
  WithTop.coe_injective (WithBot.coe_injective h)

theorem Extended.finite_lt_finite {p q : ℚ} (h : p < q) : finite p < finite q :=
  WithBot.coe_lt_coe.mpr (WithTop.coe_lt_coe.mpr h)

theorem Extended.finite_lt_top (q : ℚ) : finite q < ⊤ :=
  WithBot.coe_lt_coe.mpr (WithTop.coe_lt_top q)

/-- The number that a value is, if it is one. -/
def Number.Value.number? : Value → Option Extended
  | .notANumber => none
  | .infinite true => some ⊥
  | .infinite false => some ⊤
  | .finite negative mantissa exponent =>
    some (.finite (if negative then -dyadic mantissa exponent else dyadic mantissa exponent))

namespace Double

variable {x y z : Double}

/-- The number that a word stands for, if it stands for one. -/
def number? (x : Double) : Option Extended := x.value.number?

/-- One number is at most another. -/
def AtMost (x y : Double) : Prop := ∃ a b, x.number? = some a ∧ y.number? = some b ∧ a ≤ b

/-- One number is less than another. -/
def Below (x y : Double) : Prop := ∃ a b, x.number? = some a ∧ y.number? = some b ∧ a < b

/-- A number that is finite and not negative. -/
def IsBound (x : Double) : Prop := ∃ q : ℚ, 0 ≤ q ∧ x.number? = some (.finite q)

/-- The number of a magnitude. -/
def ofMagnitude (magnitude : Nat) : Extended :=
  if magnitude < infinity.magnitude then
    .finite (dyadic (Format.double.steps magnitude) Format.double.leastExponent)
  else ⊤

/-- A word is its magnitude with a sign. -/
theorem bits_eq (x : Double) :
    ∃ negative, x.bits.toNat = Format.double.signBit negative + x.magnitude := by
  have hlt : x.bits.toNat < 2 ^ 64 := x.bits.toNat_lt
  by_cases hhalf : x.bits.toNat < 0x8000000000000000
  · have hsign : Format.double.signBit false = 0 := rfl
    refine ⟨false, ?_⟩
    rw [hsign, magnitude]
    omega
  · have hsign : Format.double.signBit true = 0x8000000000000000 := by decide
    refine ⟨true, ?_⟩
    rw [hsign, magnitude]
    omega

theorem magnitude_lt (x : Double) :
    x.magnitude < Format.double.fractionRange * Format.double.exponentRange :=
  Nat.mod_lt _ (by decide)

/-- The sign of a word tells whether it is below zero. -/
theorem bits_eq_magnitude_iff {negative : Bool}
    (h : x.bits.toNat = Format.double.signBit negative + x.magnitude) :
    x.bits.toNat = x.magnitude ↔ negative = false := by
  cases negative with
  | false =>
    have hsign : Format.double.signBit false = 0 := rfl
    exact ⟨fun _ => rfl, fun _ => by rw [h, hsign, Nat.zero_add]⟩
  | true =>
    have hsign : Format.double.signBit true = 0x8000000000000000 := by decide
    exact ⟨fun heq => by omega, fun hfalse => (nomatch hfalse)⟩

/-- A finite word stands for the steps of its magnitude. -/
theorem number?_of_finite {negative : Bool}
    (hbits : x.bits.toNat = Format.double.signBit negative + x.magnitude)
    (h : x.magnitude < infinity.magnitude) :
    x.number? = some (.finite (if negative then
        -dyadic (Format.double.steps x.magnitude) Format.double.leastExponent
      else dyadic (Format.double.steps x.magnitude) Format.double.leastExponent)) := by
  have hfinite : x.magnitude < Format.double.infinity := h
  have hstands : Format.double.Stands (Format.double.signBit negative + x.magnitude) negative
      (dyadic (Format.double.steps x.magnitude) Format.double.leastExponent) :=
    Format.stands_steps hfinite
  obtain ⟨m, e, hdecode, hvalue⟩ := hstands
  rw [number?, value, hbits, hdecode, Value.number?, hvalue]

theorem number?_of_infinite {negative : Bool}
    (hbits : x.bits.toNat = Format.double.signBit negative + x.magnitude)
    (h : x.magnitude = infinity.magnitude) : x.number? = some (if negative then ⊥ else ⊤) := by
  have hinfinite : x.magnitude = Format.double.infinity := h
  have hdecode : Format.double.decode (Format.double.signBit negative + x.magnitude) = _ :=
    Format.decode_of_le hinfinite.ge x.magnitude_lt
  rw [number?, value, hbits, hdecode, if_pos hinfinite]
  cases negative <;> rfl

theorem number?_of_isNaN (h : x.isNaN = true) : x.number? = none := by
  have hlarge : Format.double.infinity < x.magnitude := of_decide_eq_true h
  obtain ⟨negative, hbits⟩ := x.bits_eq
  have hdecode : Format.double.decode (Format.double.signBit negative + x.magnitude) = _ :=
    Format.decode_of_le hlarge.le x.magnitude_lt
  rw [number?, value, hbits, hdecode, if_neg hlarge.ne']
  rfl

/-- A number that is not below zero is the number of its magnitude. -/
theorem number?_of_not_below (hnan : x.isNaN = false) (h : x.isBelowZero = false) :
    x.number? = some (ofMagnitude x.magnitude) := by
  obtain ⟨negative, hbits⟩ := x.bits_eq
  have hplain : x.magnitude = 0 ∨ negative = false := by
    rw [← bits_eq_magnitude_iff hbits]
    simp only [isBelowZero, hnan, Bool.not_false, Bool.true_and, Bool.and_eq_false_iff,
      bne_eq_false_iff_eq] at h
    exact h
  have hle : x.magnitude ≤ infinity.magnitude := Nat.le_of_not_lt (of_decide_eq_false hnan)
  rcases hle.lt_or_eq with hfinite | hinfinite
  · rw [number?_of_finite hbits hfinite, ofMagnitude, if_pos hfinite]
    rcases hplain with hzero | hsign
    · rw [hzero, Format.steps_zero, dyadic, Nat.cast_zero, zero_mul, neg_zero, ite_self]
    · rw [if_neg (by rw [hsign]; decide)]
  · have hsign : negative = false := hplain.resolve_left fun hzero => by
      rw [hzero] at hinfinite
      exact absurd hinfinite (by decide)
    rw [number?_of_infinite hbits hinfinite, ofMagnitude, if_neg hinfinite.not_lt, hsign]
    rfl

/-- Magnitudes up to infinity are ordered as their numbers. -/
theorem ofMagnitude_lt_iff {a b : Nat} (ha : a ≤ infinity.magnitude) (hb : b ≤ infinity.magnitude) :
    ofMagnitude a < ofMagnitude b ↔ a < b := by
  have hmono : ∀ {a b : Nat}, a < b → b ≤ infinity.magnitude → ofMagnitude a < ofMagnitude b := by
    intro a b hlt hle
    have hfinite : a < infinity.magnitude := hlt.trans_le hle
    rw [ofMagnitude, if_pos hfinite, ofMagnitude]
    by_cases hb : b < infinity.magnitude
    · have hsteps : Format.double.steps a < Format.double.steps b :=
        Format.steps_strictMono hlt hb
      rw [if_pos hb]
      exact Extended.finite_lt_finite
        (mul_lt_mul_of_pos_right (Nat.cast_lt.mpr hsteps) (two_zpow_pos _))
    · rw [if_neg hb]
      exact Extended.finite_lt_top _
  refine ⟨fun h => ?_, fun h => hmono h hb⟩
  by_contra hge
  rcases (Nat.le_of_not_lt hge).lt_or_eq with hlt | heq
  · exact lt_asymm h (hmono hlt ha)
  · exact absurd h (by rw [heq]; exact lt_irrefl _)

theorem ofMagnitude_le_iff {a b : Nat} (ha : a ≤ infinity.magnitude) (hb : b ≤ infinity.magnitude) :
    ofMagnitude a ≤ ofMagnitude b ↔ a ≤ b := by
  rw [← not_lt, ofMagnitude_lt_iff hb ha, not_lt]

/-- A word that stands for a number which is not below zero. -/
structure Plain (x : Double) : Prop where
  /-- It is a number. -/
  number : x.isNaN = false
  /-- It is not below zero. -/
  sign : x.isBelowZero = false

theorem Plain.le (h : x.Plain) : x.magnitude ≤ infinity.magnitude :=
  Nat.le_of_not_lt (of_decide_eq_false h.number)

theorem Plain.atMost_iff (hx : x.Plain) (hy : y.Plain) :
    x.AtMost y ↔ x.magnitude ≤ y.magnitude := by
  rw [AtMost, number?_of_not_below hx.number hx.sign, number?_of_not_below hy.number hy.sign,
    ← ofMagnitude_le_iff hx.le hy.le]
  exact ⟨fun ⟨_, _, ha, hb, hle⟩ => Option.some.inj ha ▸ Option.some.inj hb ▸ hle,
    fun hle => ⟨_, _, rfl, rfl, hle⟩⟩

theorem Plain.below_iff (hx : x.Plain) (hy : y.Plain) :
    x.Below y ↔ x.magnitude < y.magnitude := by
  rw [Below, number?_of_not_below hx.number hx.sign, number?_of_not_below hy.number hy.sign,
    ← ofMagnitude_lt_iff hx.le hy.le]
  exact ⟨fun ⟨_, _, ha, hb, hlt⟩ => Option.some.inj ha ▸ Option.some.inj hb ▸ hlt,
    fun hlt => ⟨_, _, rfl, rfl, hlt⟩⟩

theorem plain_zero : zero.Plain := ⟨by decide, by decide⟩

theorem plain_infinity : infinity.Plain := ⟨by decide, by decide⟩

theorem IsTolerance.plain (h : x.IsTolerance) : x.Plain := by
  have hfinite : x.magnitude < infinity.magnitude := of_decide_eq_true h.1
  exact ⟨decide_eq_false (Nat.lt_asymm hfinite), h.2⟩

/-- A tolerance is a finite number that is not negative. -/
theorem isTolerance_iff : x.IsTolerance ↔ x.IsBound := by
  constructor
  · intro h
    have hfinite : x.magnitude < infinity.magnitude := of_decide_eq_true h.1
    refine ⟨dyadic (Format.double.steps x.magnitude) Format.double.leastExponent, ?_, ?_⟩
    · exact mul_nonneg (Nat.cast_nonneg _) (two_zpow_pos _).le
    · rw [number?_of_not_below h.plain.number h.plain.sign, ofMagnitude, if_pos hfinite]
  · intro ⟨q, hq, hnumber⟩
    obtain ⟨negative, hbits⟩ := x.bits_eq
    have hnan : x.isNaN = false := by
      by_contra hnan
      rw [number?_of_isNaN (Bool.not_eq_false _ ▸ hnan)] at hnumber
      cases hnumber
    have hfinite : x.magnitude < infinity.magnitude := by
      refine (Nat.le_of_not_lt (of_decide_eq_false hnan)).lt_of_ne fun hinfinite => ?_
      rw [number?_of_infinite hbits hinfinite] at hnumber
      cases negative <;> cases hnumber
    refine ⟨decide_eq_true hfinite, ?_⟩
    by_contra hbelow
    simp only [isBelowZero, hnan, Bool.not_false, Bool.true_and, Bool.and_eq_false_iff,
      bne_eq_false_iff_eq, not_or] at hbelow
    obtain ⟨hzero, hsign⟩ := hbelow
    have hnegative : negative = true := by
      rw [bits_eq_magnitude_iff hbits] at hsign
      simpa using hsign
    have hpos : 0 < Format.double.steps x.magnitude := by
      have hmono := Format.steps_strictMono (f := .double) (Nat.pos_of_ne_zero hzero) hfinite
      rwa [Format.steps_zero] at hmono
    rw [number?_of_finite hbits hfinite, hnegative, if_pos rfl] at hnumber
    have hvalue := Extended.finite_inj (Option.some.inj hnumber)
    have hneg : (0 : ℚ) < dyadic (Format.double.steps x.magnitude) Format.double.leastExponent :=
      mul_pos (Nat.cast_pos.mpr hpos) (two_zpow_pos _)
    linarith

/-! ## Errors of elements -/

theorem plain_of_unsigned (hnan : x.isNaN = false) (h : x.bits.toNat = x.magnitude) : x.Plain := by
  refine ⟨hnan, ?_⟩
  simp [isBelowZero, h]

end Double

open Double

/-- The error of an element is a number, and not below zero. -/
theorem plain_elementError (x y : Double) : (elementError x y).Plain := by
  rw [elementError]
  split
  · exact plain_zero
  · dsimp only
    split
    · exact plain_infinity
    · rename_i hnan
      have hunsigned : ((x.sub y).abs).bits.toNat = (x.sub y).abs.magnitude := by
        have hlt : (x.sub y).magnitude < 0x8000000000000000 := Nat.mod_lt _ (by decide)
        rw [magnitude_abs, Double.abs, UInt64.toNat_ofNat']
        omega
      exact plain_of_unsigned (Bool.not_eq_true _ ▸ hnan) hunsigned

end NetTrial
