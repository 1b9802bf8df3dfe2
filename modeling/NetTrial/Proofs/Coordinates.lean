import NetTrial.Proofs.Convolutions
import NetTrial.Proofs.Extents
/-!
# Coordinates in signed words

The loop of a convolution computes the coordinate of a tap in words: what the tap reaches is a sum
of products of words, the reach and the padding are taken for signed words of the same width, and
the padding is subtracted. An accepted convolution reaches no further than the words go, and its
padding is half of a word at most. But the accepted reach may pass the middle of the words, where
the signed words are negative, and there the coordinate is not the one that is asked for. The taps
that are found are still those inside the input.
-/

namespace NetTrial.Graph

variable {input kernel stride dilation position tap pad : Nat} {padding : Padding}
  {extent : Extent}

/-! ## Signed words -/

/-- Signed words are below this limit. -/
def signedLimit : Nat := 0x8000000000000000

/-- A word taken for a signed word keeps its value in the lower half only. -/
theorem toInt_toInt64 (a : UInt64) :
    a.toInt64.toInt = if a.toNat < signedLimit then (a.toNat : Int) else a.toNat - wordLimit := by
  have hcond : a.toInt64.toInt =
      if 2 * a.toNat < 2 ^ 64 then (a.toNat : Int) else a.toNat - (2 ^ 64 : Nat) :=
    BitVec.toInt_eq_toNat_cond a.toBitVec
  rw [hcond, signedLimit, wordLimit]
  omega

/-- A signed word that is not negative keeps its value as a word. -/
theorem toNat_toUInt64 {a : Int64} (h : 0 ≤ a.toInt) : (a.toUInt64.toNat : Int) = a.toInt := by
  have hcond : a.toInt =
      if 2 * a.toUInt64.toNat < 2 ^ 64 then (a.toUInt64.toNat : Int)
      else a.toUInt64.toNat - (2 ^ 64 : Nat) :=
    BitVec.toInt_eq_toNat_cond a.toBitVec
  have hlt : a.toUInt64.toNat < 2 ^ 64 := a.toUInt64.toNat_lt
  omega

/-- What a tap reaches, computed in words. -/
def wordReach (position stride tap dilation : Nat) : UInt64 :=
  .ofNat position * .ofNat stride + .ofNat tap * .ofNat dilation

/-- The coordinate of a tap, computed in signed words. -/
def wordCoordinate (position stride tap dilation pad : Nat) : Int64 :=
  (wordReach position stride tap dilation).toInt64 - (UInt64.ofNat pad).toInt64

/-- The coordinate of a tap as the loop finds it, if it passes for one inside the input. -/
def wordTap? (position stride tap dilation pad extent : Nat) : Option Nat :=
  let coordinate := wordCoordinate position stride tap dilation pad
  if coordinate < 0 ∨ extent ≤ coordinate.toUInt64.toNat then none
  else some coordinate.toUInt64.toNat

/-- The computed coordinate is the one that is asked for, and no step on the way to it leaves the
words that it is taken in. -/
structure ExactCoordinate (position stride tap dilation pad : Nat) : Prop where
  /-- The reach is a word. -/
  reach : position * stride + tap * dilation < wordLimit
  /-- The reach keeps its value as a signed word. -/
  signedReach : (wordReach position stride tap dilation).toInt64.toInt =
    ((position * stride + tap * dilation : Nat) : Int)
  /-- The padding keeps its value as a signed word. -/
  signedPad : (UInt64.ofNat pad).toInt64.toInt = pad
  /-- The difference of the two is a signed word. -/
  difference : -(signedLimit : Int) ≤ (wordReach position stride tap dilation).toInt64.toInt -
      (UInt64.ofNat pad).toInt64.toInt ∧
    (wordReach position stride tap dilation).toInt64.toInt - (UInt64.ofNat pad).toInt64.toInt <
      signedLimit
  /-- The coordinate is the reach without the padding. -/
  coordinate : (wordCoordinate position stride tap dilation pad).toInt =
    Convolution.signedCoordinate position stride tap dilation pad

theorem toNat_wordReach (position stride tap dilation : Nat) :
    (wordReach position stride tap dilation).toNat =
      (position * stride + tap * dilation) % wordLimit := by
  rw [wordReach, UInt64.toNat_add, UInt64.toNat_mul, UInt64.toNat_mul]
  simp only [UInt64.toNat_ofNat', Nat.add_mod, Nat.mul_mod, Nat.mod_mod, wordLimit]

theorem signedReach_eq (hreach : position * stride + tap * dilation < wordLimit) :
    (wordReach position stride tap dilation).toInt64.toInt =
      if position * stride + tap * dilation < signedLimit then
        ((position * stride + tap * dilation : Nat) : Int)
      else ((position * stride + tap * dilation : Nat) : Int) - wordLimit := by
  rw [toInt_toInt64, toNat_wordReach, Nat.mod_eq_of_lt hreach]

theorem signedPad_eq (hpad : pad < signedLimit) : (UInt64.ofNat pad).toInt64.toInt = pad := by
  have hword : pad % 2 ^ 64 = pad := Nat.mod_eq_of_lt (by rw [signedLimit] at hpad; omega)
  rw [toInt_toInt64, UInt64.toNat_ofNat', hword, if_pos hpad]

theorem signedCoordinate_eq (position stride tap dilation pad : Nat) :
    Convolution.signedCoordinate position stride tap dilation pad =
      ((position * stride + tap * dilation : Nat) : Int) - pad := by
  rw [Convolution.signedCoordinate]
  push_cast
  rfl

/-- The computed coordinate lacks all words where the exact one lies beyond the signed words, and
is exact elsewhere. -/
theorem wordCoordinate_eq (hreach : position * stride + tap * dilation < wordLimit)
    (hpad : pad < signedLimit) :
    (wordCoordinate position stride tap dilation pad).toInt =
      if Convolution.signedCoordinate position stride tap dilation pad < signedLimit then
        Convolution.signedCoordinate position stride tap dilation pad
      else Convolution.signedCoordinate position stride tap dilation pad - wordLimit := by
  rw [wordCoordinate, Int64.toInt_sub, signedReach_eq hreach, signedPad_eq hpad,
    signedCoordinate_eq]
  generalize position * stride + tap * dilation = reach at hreach ⊢
  rw [wordLimit] at hreach
  rw [signedLimit] at hpad
  rw [Int.bmod_def, signedLimit, wordLimit]
  omega

/-- A coordinate is exact where the reach lies in the lower half of the words. -/
theorem exactCoordinate_iff (hreach : position * stride + tap * dilation < wordLimit)
    (hpad : pad < signedLimit) :
    ExactCoordinate position stride tap dilation pad ↔
      position * stride + tap * dilation < signedLimit := by
  have hcast := signedReach_eq hreach
  constructor
  · intro hexact
    by_contra hfar
    have hsigned := hexact.signedReach
    rw [hcast, if_neg hfar, wordLimit] at hsigned
    omega
  · intro hnear
    rw [if_pos hnear] at hcast
    have hsigned := signedCoordinate_eq position stride tap dilation pad
    have hbelow : Convolution.signedCoordinate position stride tap dilation pad < signedLimit := by
      omega
    refine ⟨hreach, hcast, signedPad_eq hpad, ?_, ?_⟩
    · rw [hcast, signedPad_eq hpad]
      omega
    · rw [wordCoordinate_eq hreach hpad, if_pos hbelow]

/-- The loop finds the taps inside the input, exact or not. -/
theorem wordTap?_eq (hreach : position * stride + tap * dilation < wordLimit)
    (hpad : pad < signedLimit) (hinput : input ≤ signedLimit) :
    wordTap? position stride tap dilation pad input =
      tapCoordinate? position stride tap dilation pad input := by
  have hvalue := wordCoordinate_eq hreach hpad
  have hsigned := signedCoordinate_eq position stride tap dilation pad
  have hneg : wordCoordinate position stride tap dilation pad < 0 ↔
      (wordCoordinate position stride tap dilation pad).toInt < 0 := Int64.lt_iff_toInt_lt
  have hnat := toNat_toUInt64 (a := wordCoordinate position stride tap dilation pad)
  rw [wordLimit] at hreach hvalue
  rw [signedLimit] at hpad hinput hvalue
  rw [wordTap?, Convolution.tapCoordinate?_eq]
  generalize Convolution.signedCoordinate position stride tap dilation pad = signed at *
  by_cases hinside : 0 ≤ signed ∧ signed < input
  · have hexact : (wordCoordinate position stride tap dilation pad).toInt = signed := by omega
    have hword := hnat (by omega)
    have hloop : ¬ (wordCoordinate position stride tap dilation pad < 0 ∨
        input ≤ (wordCoordinate position stride tap dilation pad).toUInt64.toNat) := by
      rw [hneg]
      omega
    simp only [if_neg hloop, if_pos hinside, Option.some.injEq]
    omega
  · have hloop : wordCoordinate position stride tap dilation pad < 0 ∨
        input ≤ (wordCoordinate position stride tap dilation pad).toUInt64.toNat := by
      rw [hneg]
      by_cases hlow : (wordCoordinate position stride tap dilation pad).toInt < 0
      · exact Or.inl hlow
      · have hword := hnat (by omega)
        right
        omega
    simp only [if_pos hloop, if_neg hinside]

/-! ## Accepted axes -/

/-- What the loop computes along an axis: its reach and its padding fit, its coordinates are exact
when the last tap of the last window reaches less than the signed words, and the taps it finds are
those inside the input. -/
structure AxisCoordinates (input kernel stride dilation : Nat) (extent : Extent) : Prop where
  /-- Every reach is a word. -/
  reach : ∀ o < extent.out, ∀ k < kernel, o * stride + k * dilation < wordLimit
  /-- The padding keeps its value as a signed word. -/
  signedPad : (UInt64.ofNat extent.pad).toInt64.toInt = extent.pad
  /-- All coordinates are exact when the last one is. -/
  exact_iff : (∀ o < extent.out, ∀ k < kernel, ExactCoordinate o stride k dilation extent.pad) ↔
    extent.out = 0 ∨ (extent.out - 1) * stride + (kernel - 1) * dilation < signedLimit
  /-- The loop finds the taps inside the input. -/
  taps : input ≤ signedLimit → ∀ o < extent.out, ∀ k < kernel,
    wordTap? o stride k dilation extent.pad input =
      tapCoordinate? o stride k dilation extent.pad input

/-- What an accepted axis with rim `same` covers is a word. -/
theorem sameCover_lt (h : outputExtent input kernel stride dilation .same = .ok extent) :
    sameCover input kernel stride dilation < wordLimit := by
  have haccepts := not_refuses_of_outputExtent h
  simp only [RefusesAxis, not_or] at haccepts
  exact Nat.not_le.mp haccepts.2.2.2.2

/-- The windows of an accepted axis end among the words. -/
theorem window_lt (hinput : input < wordLimit)
    (h : outputExtent input kernel stride dilation padding = .ok extent) :
    ∀ o < extent.out, o * stride + windowExtent kernel dilation < wordLimit := by
  intro o ho
  have hfollows := outputExtent_followsRim h
  cases padding with
  | valid =>
    have hkeeps : KeepsInside input kernel stride dilation extent := hfollows
    have hend := (hkeeps.positions o).mp ho
    omega
  | same =>
    have hkeeps : KeepsExtent input kernel stride dilation extent := hfollows
    have hend := hkeeps.windows o ho
    have hpad := hkeeps.pad
    have hcover := sameCover_lt h
    rw [samePadding] at hend hpad
    omega

/-- The padding in front of an accepted axis is a signed word. -/
theorem pad_lt (h : outputExtent input kernel stride dilation padding = .ok extent) :
    extent.pad < signedLimit := by
  have hfollows := outputExtent_followsRim h
  cases padding with
  | valid =>
    have hkeeps : KeepsInside input kernel stride dilation extent := hfollows
    rw [hkeeps.pad]
    decide
  | same =>
    have hkeeps : KeepsExtent input kernel stride dilation extent := hfollows
    have hpad := hkeeps.pad
    have hcover := sameCover_lt h
    rw [samePadding] at hpad
    rw [wordLimit] at hcover
    rw [signedLimit]
    omega

theorem axisCoordinates (hinput : input < wordLimit)
    (h : outputExtent input kernel stride dilation padding = .ok extent) :
    AxisCoordinates input kernel stride dilation extent := by
  have hreach : ∀ o < extent.out, ∀ k < kernel, o * stride + k * dilation < wordLimit := by
    intro o ho k hk
    have hend := window_lt hinput h o ho
    have htap := tap_lt_windowExtent hk dilation
    omega
  have hkernel : 0 < kernel := by
    have haccepts := not_refuses_of_outputExtent h
    simp only [RefusesAxis, not_or] at haccepts
    omega
  refine {
    reach := hreach
    signedPad := signedPad_eq (pad_lt h)
    exact_iff := ?_
    taps := fun hle o ho k hk => wordTap?_eq (hreach o ho k hk) (pad_lt h) hle }
  constructor
  · intro hall
    by_cases hout : extent.out = 0
    · exact Or.inl hout
    · -- The last tap of the last window reaches furthest.
      have hlast := hall (extent.out - 1) (by omega) (kernel - 1) (by omega)
      rw [exactCoordinate_iff hlast.reach (pad_lt h)] at hlast
      exact Or.inr hlast
  · intro hnear o ho k hk
    rw [exactCoordinate_iff (hreach o ho k hk) (pad_lt h)]
    have hlast := hnear.resolve_left (by omega)
    have hposition : o * stride ≤ (extent.out - 1) * stride :=
      Nat.mul_le_mul_right stride (by omega)
    have htap : k * dilation ≤ (kernel - 1) * dilation := Nat.mul_le_mul_right dilation (by omega)
    omega

namespace Convolution

variable {c : Convolution} {depthwise : Bool} {shape : Shape} {p : Plan}

/-- Along both axes of an accepted convolution. -/
theorem plan_coordinates (hshape : ∀ d ∈ shape, d < wordLimit)
    (hplan : c.plan depthwise shape = .ok p) :
    AxisCoordinates p.height c.filterShape.height c.strides.1 c.dilations.1 p.rows ∧
      AxisCoordinates p.width c.filterShape.width c.strides.2 c.dilations.2 p.columns := by
  have hplans : Plans c depthwise shape p := (plan_gives c depthwise shape).of_ok hplan
  have hheight : p.height < wordLimit := hshape p.height (by simp [hplans.shape])
  have hwidth : p.width < wordLimit := hshape p.width (by simp [hplans.shape])
  exact ⟨axisCoordinates hheight hplans.rows, axisCoordinates hwidth hplans.columns⟩

/-- A window of three taps each way, of which the outer ones lie far beyond the input. -/
def stretched (dilations : Nat × Nat) : Convolution where
  filterShape := ⟨3, 3, 1, 1⟩
  filter := (List.range 9).map .ofNat
  bias := none
  strides := (1, 2)
  dilations := dilations
  padding := .same
  activation := .none

/-- Taps just below a quarter of all words apart reach no further than the signed words. -/
theorem plan_coordinates_near :
    ∃ p, (stretched (0x3fffffffffffffff, 0x3fffffffffffffff)).plan false [1, 1, 2, 1] = .ok p ∧
      p.rows = ⟨1, 0x3fffffffffffffff⟩ ∧
      (∀ oy < p.rows.out, ∀ ky < 3, ExactCoordinate oy 1 ky 0x3fffffffffffffff p.rows.pad) ∧
      ∀ ox < p.columns.out, ∀ kx < 3,
        ExactCoordinate ox 2 kx 0x3fffffffffffffff p.columns.pad := by
  have hplan : (stretched (0x3fffffffffffffff, 0x3fffffffffffffff)).plan false [1, 1, 2, 1] =
      .ok ⟨1, 1, 2, 1, ⟨1, 0x3fffffffffffffff⟩, ⟨1, 0x3ffffffffffffffe⟩, 1⟩ := by
    decide
  obtain ⟨hrows, hcolumns⟩ := plan_coordinates (by decide) hplan
  refine ⟨_, hplan, rfl, hrows.exact_iff.mpr (Or.inr (by decide)),
    hcolumns.exact_iff.mpr (Or.inr (by decide))⟩

/-- A quarter of all words apart the last row tap reaches the middle of the words: it turns
negative, and the difference leaves the signed words. Twice as far apart less one, the coordinate
of the last column tap is computed as the least signed word instead of the first number above
them. -/
theorem stretched_inexact :
    ∃ p, (stretched (0x4000000000000000, 0x7fffffffffffffff)).plan false [1, 1, 2, 1] = .ok p ∧
      0 < p.rows.out ∧
      (wordReach 0 1 2 0x4000000000000000).toInt64.toInt = -0x8000000000000000 ∧
      (wordReach 0 1 2 0x4000000000000000).toInt64.toInt -
        (UInt64.ofNat p.rows.pad).toInt64.toInt < -(signedLimit : Int) ∧
      0 < p.columns.out ∧
      (wordCoordinate 0 2 2 0x7fffffffffffffff p.columns.pad).toInt = -0x8000000000000000 ∧
      signedCoordinate 0 2 2 0x7fffffffffffffff p.columns.pad = 0x8000000000000000 ∧
      ¬ ExactCoordinate 0 1 2 0x4000000000000000 p.rows.pad ∧
      ¬ ExactCoordinate 0 2 2 0x7fffffffffffffff p.columns.pad := by
  have hplan : (stretched (0x4000000000000000, 0x7fffffffffffffff)).plan false [1, 1, 2, 1] =
      .ok ⟨1, 1, 2, 1, ⟨1, 0x4000000000000000⟩, ⟨1, 0x7ffffffffffffffe⟩, 1⟩ := by
    decide
  have hrow : (wordReach 0 1 2 0x4000000000000000).toInt64.toInt = -0x8000000000000000 := by
    decide
  have hcolumn : (wordCoordinate 0 2 2 0x7fffffffffffffff 0x7ffffffffffffffe).toInt =
      -0x8000000000000000 := by
    decide
  refine ⟨_, hplan, by decide, hrow, by decide, by decide, hcolumn, by decide, ?_, ?_⟩
  · intro hexact
    have hsigned := hexact.signedReach
    rw [hrow] at hsigned
    omega
  · intro hexact
    have hcoordinate := hcolumn.symm.trans hexact.coordinate
    exact absurd hcoordinate (by decide)

end Convolution

end NetTrial.Graph
