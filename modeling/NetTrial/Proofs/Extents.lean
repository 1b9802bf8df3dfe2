import Mathlib.Algebra.Order.Floor.Div
import Mathlib.SetTheory.Cardinal.Finite
import NetTrial.Graph.Convolution
/-!
# Output extents by the rule of the rim

What an axis gives is said here with exact integers: the extent of a window, the positions whose
windows lie inside the input, and the padding that the last window asks for. The function that
computes it tests two of its steps against the word limit and takes the others as they come. A
copy of it in which every step has to stay among the words shows that these others do.
-/

namespace NetTrial.Graph

variable {input kernel stride dilation : Nat} {padding : Padding} {extent : Extent}

/-! ## Windows -/

/-- The extent of a window, from its first tap to its last. -/
def windowExtent (kernel dilation : Nat) : Nat := (kernel - 1) * dilation + 1

/-- The input extent that the windows of an axis with rim `same` cover. -/
def sameCover (input kernel stride dilation : Nat) : Nat :=
  (input ⌈/⌉ stride - 1) * stride + windowExtent kernel dilation

/-- The padding of an axis with rim `same`, in front of the input and behind it. -/
def samePadding (input kernel stride dilation : Nat) : Nat :=
  sameCover input kernel stride dilation - input

theorem divideUp_eq (a b : Nat) : divideUp a b = a ⌈/⌉ b := rfl

/-- Every tap of a window lies inside its extent. -/
theorem tap_lt_windowExtent {tap : Nat} (h : tap < kernel) (dilation : Nat) :
    tap * dilation < windowExtent kernel dilation := by
  have hle : tap * dilation ≤ (kernel - 1) * dilation :=
    Nat.mul_le_mul_right dilation (Nat.le_sub_one_of_lt h)
  rw [windowExtent]
  omega

/-- A checked product and a checked sum after it are one test of the sum. -/
theorem checkedSpan_eq (steps width rest : Nat) :
    ((checkedMul steps width).bind fun span => checkedAdd span rest) =
      if steps * width + rest < wordLimit then some (steps * width + rest) else none := by
  generalize hreach : steps * width = reach
  by_cases hlt : reach + rest < wordLimit
  · have hword : reach < wordLimit := by omega
    simp only [checkedMul, checkedAdd, hreach, Option.bind_some, if_pos hword, if_pos hlt]
  · by_cases hword : reach < wordLimit
    · simp only [checkedMul, checkedAdd, hreach, Option.bind_some, if_pos hword, if_neg hlt]
    · simp only [checkedMul, hreach, Option.bind_none, if_neg hword, if_neg hlt]

theorem effectiveKernel?_span (kernel dilation : Nat) : effectiveKernel? kernel dilation =
    (checkedMul (kernel - 1) dilation).bind fun span => checkedAdd span 1 := by
  rw [effectiveKernel?]
  cases checkedMul (kernel - 1) dilation <;> rfl

theorem effectiveKernel?_eq (kernel dilation : Nat) :
    effectiveKernel? kernel dilation =
      if windowExtent kernel dilation < wordLimit then some (windowExtent kernel dilation)
      else none := by
  rw [effectiveKernel?_span, checkedSpan_eq]
  rfl

theorem effectiveKernel?_pos {effective : Nat}
    (h : effectiveKernel? kernel dilation = some effective) : 0 < effective := by
  rw [effectiveKernel?_eq] at h
  split at h
  · have hvalue : windowExtent kernel dilation = effective := Option.some.inj h
    exact hvalue ▸ Nat.succ_pos _
  · cases h

theorem coveredExtent?_span (out stride effective : Nat) : coveredExtent? out stride effective =
    (checkedMul (out - 1) stride).bind fun span => checkedAdd span effective := by
  rw [coveredExtent?]
  cases checkedMul (out - 1) stride <;> rfl

theorem coveredExtent?_eq (out stride effective : Nat) :
    coveredExtent? out stride effective =
      if (out - 1) * stride + effective < wordLimit then some ((out - 1) * stride + effective)
      else none := by
  rw [coveredExtent?_span, checkedSpan_eq]

/-! ## The rules -/

/-- Where an axis has no output extent. -/
def RefusesAxis (input kernel stride dilation : Nat) (padding : Padding) : Prop :=
  kernel = 0 ∨ stride = 0 ∨ dilation = 0 ∨ wordLimit ≤ windowExtent kernel dilation ∨
    match padding with
    | .valid => input < windowExtent kernel dilation
    | .same => wordLimit ≤ sameCover input kernel stride dilation

/-- What the rim `valid` says of an output extent. -/
structure KeepsInside (input kernel stride dilation : Nat) (extent : Extent) : Prop where
  /-- Nothing is padded. -/
  pad : extent.pad = 0
  /-- The output positions are those whose windows end inside the input. -/
  positions : ∀ o, o < extent.out ↔ o * stride + windowExtent kernel dilation ≤ input
  /-- There are as many of them as the extent says. -/
  count : extent.out = Nat.card {o // o * stride + windowExtent kernel dilation ≤ input}
  /-- Every tap of every window lies inside the input. -/
  taps : ∀ o < extent.out, ∀ k < kernel, o * stride + k * dilation < input

/-- What the rim `same` says of an output extent. The input is extended by the padding in front
of it and by the rest of the padding behind it. -/
structure KeepsExtent (input kernel stride dilation : Nat) (extent : Extent) : Prop where
  /-- The extent of the input is kept, divided by the stride and rounded up. -/
  out : extent.out = input ⌈/⌉ stride
  /-- Half of the padding goes in front. -/
  pad : extent.pad = samePadding input kernel stride dilation / 2
  /-- Behind there is as much or one element more. -/
  rest : samePadding input kernel stride dilation - extent.pad = extent.pad ∨
    samePadding input kernel stride dilation - extent.pad = extent.pad + 1
  /-- Every window ends inside the extended input. -/
  windows : ∀ o < extent.out, o * stride + windowExtent kernel dilation ≤
    extent.pad + input + (samePadding input kernel stride dilation - extent.pad)
  /-- Every tap of every window lies inside the extended input. -/
  taps : ∀ o < extent.out, ∀ k < kernel, o * stride + k * dilation <
    extent.pad + input + (samePadding input kernel stride dilation - extent.pad)

/-- What the rim of an axis says of its output extent. -/
def FollowsRim (input kernel stride dilation : Nat) (padding : Padding) (extent : Extent) : Prop :=
  match padding with
  | .valid => KeepsInside input kernel stride dilation extent
  | .same => KeepsExtent input kernel stride dilation extent

theorem keepsInside (hstride : stride ≠ 0) (hle : windowExtent kernel dilation ≤ input) :
    KeepsInside input kernel stride dilation
      ⟨(input - windowExtent kernel dilation) / stride + 1, 0⟩ := by
  have hpositions : ∀ o, o < (input - windowExtent kernel dilation) / stride + 1 ↔
      o * stride + windowExtent kernel dilation ≤ input := by
    intro o
    rw [Nat.lt_succ_iff, Nat.le_div_iff_mul_le (Nat.pos_of_ne_zero hstride)]
    omega
  refine { pad := rfl, positions := hpositions, count := ?_, taps := ?_ }
  · rw [← Nat.card_congr (Equiv.subtypeEquivRight hpositions), ← Nat.card_congr Fin.equivSubtype,
      Nat.card_fin]
  · intro o ho k hk
    have hend := (hpositions o).mp ho
    have htap := tap_lt_windowExtent hk dilation
    omega

theorem keepsExtent (input kernel stride dilation : Nat) :
    KeepsExtent input kernel stride dilation
      ⟨input ⌈/⌉ stride, samePadding input kernel stride dilation / 2⟩ := by
  have hwindows : ∀ o < input ⌈/⌉ stride, o * stride + windowExtent kernel dilation ≤
      samePadding input kernel stride dilation / 2 + input +
        (samePadding input kernel stride dilation -
          samePadding input kernel stride dilation / 2) := by
    intro o ho
    have hlast : o * stride ≤ (input ⌈/⌉ stride - 1) * stride :=
      Nat.mul_le_mul_right stride (Nat.le_sub_one_of_lt ho)
    have hcover : sameCover input kernel stride dilation ≤
        samePadding input kernel stride dilation + input := Nat.le_add_of_sub_le le_rfl
    rw [sameCover] at hcover
    omega
  refine { out := rfl, pad := rfl, rest := ?_, windows := hwindows, taps := ?_ }
  · dsimp only
    omega
  · intro o ho k hk
    have hend := hwindows o ho
    have htap := tap_lt_windowExtent hk dilation
    dsimp only
    omega

/-! ## The computed extent -/

theorem outputExtent_eq (h : ¬ (kernel = 0 ∨ stride = 0 ∨ dilation = 0)) :
    outputExtent input kernel stride dilation padding =
      if wordLimit ≤ windowExtent kernel dilation then .error (.overflow kernel dilation stride)
      else match padding with
        | .valid =>
          if input < windowExtent kernel dilation then
            .error (.tooSmall input (windowExtent kernel dilation))
          else .ok ⟨(input - windowExtent kernel dilation) / stride + 1, 0⟩
        | .same =>
          if wordLimit ≤ sameCover input kernel stride dilation then
            .error (.overflow kernel dilation stride)
          else .ok ⟨input ⌈/⌉ stride, samePadding input kernel stride dilation / 2⟩ := by
  rw [outputExtent, if_neg h, effectiveKernel?_eq]
  by_cases hwindow : windowExtent kernel dilation < wordLimit
  · rw [if_pos hwindow, if_neg (Nat.not_le.mpr hwindow)]
    cases padding with
    | valid => rfl
    | same =>
      simp only [divideUp_eq, coveredExtent?_eq]
      by_cases hcover : sameCover input kernel stride dilation < wordLimit
      · rw [if_neg (Nat.not_le.mpr hcover)]
        rw [sameCover] at hcover
        rw [if_pos hcover]
        rfl
      · rw [if_pos (Nat.not_lt.mp hcover)]
        rw [sameCover] at hcover
        rw [if_neg hcover]
  · rw [if_neg hwindow, if_pos (Nat.not_lt.mp hwindow)]

/-- An axis that is refused ends in a fault. -/
theorem outputExtent_of_refuses (h : RefusesAxis input kernel stride dilation padding) :
    ∃ fault, outputExtent input kernel stride dilation padding = .error fault := by
  by_cases hzero : kernel = 0 ∨ stride = 0 ∨ dilation = 0
  · exact ⟨.zero, by rw [outputExtent, if_pos hzero]⟩
  · rw [outputExtent_eq hzero]
    by_cases hwindow : wordLimit ≤ windowExtent kernel dilation
    · exact ⟨_, if_pos hwindow⟩
    · rw [if_neg hwindow]
      have hrim := h.resolve_left (hzero ∘ .inl)
        |>.resolve_left (hzero ∘ .inr ∘ .inl) |>.resolve_left (hzero ∘ .inr ∘ .inr)
        |>.resolve_left hwindow
      cases padding with
      | valid => exact ⟨_, if_pos hrim⟩
      | same => exact ⟨_, if_pos hrim⟩

/-- An axis that is not refused has an extent by the rule of its rim. -/
theorem outputExtent_of_not_refuses (h : ¬ RefusesAxis input kernel stride dilation padding) :
    ∃ extent, outputExtent input kernel stride dilation padding = .ok extent ∧
      FollowsRim input kernel stride dilation padding extent := by
  simp only [RefusesAxis, not_or] at h
  obtain ⟨hkernel, hstride, hdilation, hwindow, hrim⟩ := h
  rw [outputExtent_eq (by simp [hkernel, hstride, hdilation]), if_neg hwindow]
  cases padding with
  | valid => exact ⟨_, if_neg hrim, keepsInside hstride (Nat.not_lt.mp hrim)⟩
  | same => exact ⟨_, if_neg hrim, keepsExtent input kernel stride dilation⟩

/-- An extent stands for an axis that is not refused. -/
theorem not_refuses_of_outputExtent
    (h : outputExtent input kernel stride dilation padding = .ok extent) :
    ¬ RefusesAxis input kernel stride dilation padding := by
  intro hrefuses
  obtain ⟨fault, hfault⟩ := outputExtent_of_refuses hrefuses
  rw [h] at hfault
  cases hfault

theorem outputExtent_followsRim
    (h : outputExtent input kernel stride dilation padding = .ok extent) :
    FollowsRim input kernel stride dilation padding extent := by
  obtain ⟨found, hfound, hfollows⟩ :=
    outputExtent_of_not_refuses (not_refuses_of_outputExtent h)
  rw [h] at hfound
  cases hfound
  exact hfollows

/-! ## Every step among the words -/

/-- A difference of words that is a word. -/
def checkedSub (a b : Nat) : Option Nat := if b ≤ a then some (a - b) else none

/-- A quotient by a number other than zero. -/
def checkedDiv (a b : Nat) : Option Nat := if b = 0 then none else some (a / b)

/-- A quotient rounded up: the quotient, or one more where there is a remainder. -/
def checkedDivUp (a b : Nat) : Option Nat := do
  let quotient ← checkedDiv a b
  if a % b = 0 then return quotient else checkedAdd quotient 1

/-- The output extent where every step has to stay among the words. The steps that are tested
end in a fault when they leave them, and the others have no result. -/
def wordExtent? (input kernel stride dilation : Nat) (padding : Padding) :
    Option (Except ExtentFault Extent) := do
  if kernel = 0 ∨ stride = 0 ∨ dilation = 0 then return .error .zero
  let steps ← checkedSub kernel 1
  match (checkedMul steps dilation).bind fun span => checkedAdd span 1 with
  | none => return .error (.overflow kernel dilation stride)
  | some effective =>
    match padding with
    | .same =>
      let out ← checkedDivUp input stride
      match (checkedMul (out - 1) stride).bind fun span => checkedAdd span effective with
      | none => return .error (.overflow kernel dilation stride)
      | some covered =>
        let front ← checkedDiv (covered - input) 2
        return .ok ⟨out, front⟩
    | .valid =>
      if input < effective then return .error (.tooSmall input effective)
      let room ← checkedSub input effective
      let places ← checkedDiv room stride
      let out ← checkedAdd places 1
      return .ok ⟨out, 0⟩

/-- Rounding a word up does not leave the words. -/
theorem checkedDivUp_eq (hinput : input < wordLimit) (hstride : stride ≠ 0) :
    checkedDivUp input stride = some (input ⌈/⌉ stride) := by
  have hpos : 0 < stride := Nat.pos_of_ne_zero hstride
  have hmod : input % stride < stride := Nat.mod_lt input hpos
  have hsplit : input + stride - 1 =
      stride * (input / stride) + (input % stride + stride - 1) := by
    have h := Nat.div_add_mod input stride
    omega
  rw [checkedDivUp, checkedDiv, if_neg hstride, Nat.ceilDiv_eq_add_pred_div, hsplit,
    Nat.mul_add_div hpos]
  by_cases hzero : input % stride = 0
  · have hrest : (input % stride + stride - 1) / stride = 0 :=
      Nat.div_eq_of_lt (by omega)
    rw [hrest]
    exact if_pos hzero
  · have hrest : (input % stride + stride - 1) / stride = 1 :=
      Nat.div_eq_of_lt_le (by omega) (by omega)
    -- A remainder asks for a divisor of at least two, so the quotient is below the input.
    have hquotient : input / stride < input :=
      Nat.div_lt_self (by omega) (by omega)
    rw [hrest]
    exact (if_neg hzero).trans (if_pos (by omega))

/-- The steps that are not tested never leave the words. -/
theorem wordExtent?_eq (hinput : input < wordLimit) (kernel stride dilation : Nat)
    (padding : Padding) :
    wordExtent? input kernel stride dilation padding =
      some (outputExtent input kernel stride dilation padding) := by
  rw [wordExtent?, outputExtent]
  by_cases hzero : kernel = 0 ∨ stride = 0 ∨ dilation = 0
  · rw [if_pos hzero, if_pos hzero]
    rfl
  · rw [if_neg hzero, if_neg hzero]
    have hkernel : checkedSub kernel 1 = some (kernel - 1) := if_pos (by omega)
    simp only [hkernel, Option.bind_eq_bind, Option.bind_some, ← effectiveKernel?_span]
    cases heffective : effectiveKernel? kernel dilation with
    | none => rfl
    | some effective =>
      cases padding with
      | same =>
        have hout : checkedDivUp input stride = some (input ⌈/⌉ stride) :=
          checkedDivUp_eq hinput (by omega)
        simp only [hout, Option.bind_some, ← coveredExtent?_span, divideUp_eq]
        cases coveredExtent? (input ⌈/⌉ stride) stride effective <;> rfl
      | valid =>
        by_cases hsmall : input < effective
        · simp only [if_pos hsmall]
          rfl
        · have hpos : 0 < effective := effectiveKernel?_pos heffective
          have hroom : checkedSub input effective = some (input - effective) :=
            if_pos (Nat.not_lt.mp hsmall)
          have hplaces : checkedDiv (input - effective) stride =
              some ((input - effective) / stride) := if_neg (by omega)
          have hle : (input - effective) / stride ≤ input - effective := Nat.div_le_self _ _
          have hout : checkedAdd ((input - effective) / stride) 1 =
              some ((input - effective) / stride + 1) := if_pos (by omega)
          simp only [if_neg hsmall, hroom, hplaces, hout, Option.bind_some]
          rfl

/-! ## The main result -/

/-- A fault where the rule of the rim has no extent, and elsewhere the extent that it asks for,
with no step beyond the words. -/
theorem outputExtent_rule (hinput : input < wordLimit) (kernel stride dilation : Nat)
    (padding : Padding) :
    ((∃ fault, outputExtent input kernel stride dilation padding = .error fault) ↔
      RefusesAxis input kernel stride dilation padding) ∧
    (¬ RefusesAxis input kernel stride dilation padding →
      ∃ extent, outputExtent input kernel stride dilation padding = .ok extent ∧
        FollowsRim input kernel stride dilation padding extent) ∧
    wordExtent? input kernel stride dilation padding =
      some (outputExtent input kernel stride dilation padding) := by
  refine ⟨⟨?_, outputExtent_of_refuses⟩, outputExtent_of_not_refuses,
    wordExtent?_eq hinput kernel stride dilation padding⟩
  rintro ⟨fault, hfault⟩
  by_contra haccepts
  obtain ⟨extent, hextent, -⟩ := outputExtent_of_not_refuses haccepts
  rw [hfault] at hextent
  cases hextent

/-- Seven elements under windows of three taps, two apart, at every second position: four
outputs, and of four elements of padding two in front. -/
theorem outputExtent_rule_seven :
    ∃ extent, outputExtent 7 3 2 2 .same = .ok extent ∧ extent = ⟨4, 2⟩ ∧
      FollowsRim 7 3 2 2 .same extent ∧ wordExtent? 7 3 2 2 .same = some (.ok ⟨4, 2⟩) := by
  have hinput : 7 < wordLimit := by decide
  have haccepts : ¬ RefusesAxis 7 3 2 2 .same := by
    rw [← (outputExtent_rule hinput 3 2 2 .same).1]
    rintro ⟨fault, hfault⟩
    cases hfault
  obtain ⟨extent, hextent, hfollows⟩ := (outputExtent_rule hinput 3 2 2 .same).2.1 haccepts
  have hvalue : extent = ⟨4, 2⟩ := (Except.ok.inj hextent).symm
  exact ⟨extent, hextent, hvalue, hfollows, (outputExtent_rule hinput 3 2 2 .same).2.2⟩

end NetTrial.Graph
