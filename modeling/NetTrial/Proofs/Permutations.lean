import Mathlib.Data.Fintype.EquivFin
import Mathlib.Data.List.OfFn
import NetTrial.Proofs.AxisOrders
/-!
# Permutations and their inverses

A list of as many axes as the rank, all below it and none twice, leaves no axis out, so it is a
bijection of the axes. It is told by a table with a mark for each axis: the axes are marked one
after the other until one is beyond the rank or marked already. Its inverse is filled into a table
as well, each place at the axis that stands there. Neither table is left on the way. The inverse is
a permutation of the same axes, both lead back from each other, and the inverse of the inverse is
the permutation itself.
-/

namespace NetTrial.Shape

variable {rank place axis other : Nat} {perm axes table written first second : List Nat}
  {seen : List Bool}

/-! ## What is accepted -/

/-- The rearrangements of the axes are the bijections of the axes. Where no axis is repeated, none
of them is left out. -/
theorem perm_range_iff_bijective : perm.Perm (List.range rank) ↔
    ∃ f : Fin rank → Fin rank, f.Bijective ∧ perm = List.ofFn fun i => (f i).val := by
  constructor
  · intro h
    obtain rfl := length_of_perm h
    have hnodup : perm.Nodup := h.nodup_iff.mpr List.nodup_range
    refine ⟨fun i => ⟨perm[i.val], lt_of_perm h (List.getElem_mem i.isLt)⟩, ?_, ?_⟩
    · refine Finite.injective_iff_bijective.mp fun i j hij => ?_
      exact Fin.ext (hnodup.getElem_inj_iff.mp (congrArg Fin.val hij))
    · exact List.ofFn_getElem.symm
  · rintro ⟨f, hf, rfl⟩
    refine perm_range_of_isPermutation (isPermutation_eq_true_iff.mpr ⟨List.length_ofFn, ?_, ?_⟩)
    · intro axis haxis
      obtain ⟨i, rfl⟩ := (List.mem_ofFn' _ _).mp haxis
      exact (f i).isLt
    · exact List.nodup_ofFn.mpr (Fin.val_injective.comp hf.injective)

/-! ## Marks -/

/-- Marks axes one after the other. The pass stops at an axis that is not below the rank or has its
mark already, and there is no result when a mark is looked for beyond the table. -/
def markAxes? (rank : Nat) (seen : List Bool) : (axes : List Nat) → Option Bool
  | [] => some true
  | axis :: axes =>
    if rank ≤ axis then some false
    else
      match seen[axis]? with
      | none => none
      | some true => some false
      | some false => markAxes? rank (seen.set axis true) axes

/-- Axes that have no mark yet, none of them twice. -/
def Unmarked (seen : List Bool) (axes : List Nat) : Prop :=
  axes.Nodup ∧ ∀ axis ∈ axes, seen[axis]? = some false

/-- One mark more leaves the other axes as they are. -/
theorem set_unmarked_iff :
    (seen.set axis true)[other]? = some false ↔ other ≠ axis ∧ seen[other]? = some false := by
  rw [List.getElem?_set]
  by_cases h : axis = other
  · subst h
    by_cases hlt : axis < seen.length <;> simp [hlt]
  · simp [h, Ne.symm h]

/-- After the first axis is marked, the others still have no mark. -/
theorem unmarked_cons_iff : Unmarked seen (axis :: axes) ↔
    seen[axis]? = some false ∧ Unmarked (seen.set axis true) axes := by
  simp only [Unmarked, List.nodup_cons, List.forall_mem_cons, set_unmarked_iff]
  constructor
  · rintro ⟨⟨hnew, hnodup⟩, hfirst, hrest⟩
    exact ⟨hfirst, hnodup, fun other hother => ⟨fun h => hnew (h ▸ hother), hrest other hother⟩⟩
  · rintro ⟨hfirst, hnodup, hrest⟩
    exact ⟨⟨fun h => (hrest axis h).1 rfl, hnodup⟩, hfirst, fun other hother =>
      (hrest other hother).2⟩

/-- A pass through a table with a mark for each axis below the rank never leaves the table. It goes
through to the end exactly when the axes have no mark before and none is listed twice. -/
theorem markAxes?_eq (hseen : seen.length = rank) (axes : List Nat) :
    ∃ valid, markAxes? rank seen axes = some valid ∧ (valid = true ↔ Unmarked seen axes) := by
  induction axes generalizing seen with
  | nil => exact ⟨true, rfl, by simp [Unmarked]⟩
  | cons axis axes ih =>
    rw [markAxes?, unmarked_cons_iff]
    by_cases haxis : rank ≤ axis
    · have hbeyond : seen[axis]? = none := List.getElem?_eq_none (by omega)
      exact ⟨false, if_pos haxis, by simp [hbeyond]⟩
    · rw [if_neg haxis]
      cases hread : seen[axis]? with
      | none =>
        have hshort := List.getElem?_eq_none_iff.mp hread
        omega
      | some mark =>
        cases mark with
        | true => exact ⟨false, rfl, by simp⟩
        | false =>
          have hmarked : (seen.set axis true).length = rank := by rw [List.length_set, hseen]
          obtain ⟨valid, hrest, hvalid⟩ := ih hmarked
          exact ⟨valid, hrest, by simp [hvalid]⟩

/-- The axes below the rank have no mark in a new table. -/
theorem unmarked_replicate_iff : Unmarked (List.replicate rank false) axes ↔
    (∀ axis ∈ axes, axis < rank) ∧ axes.Nodup := by
  simp [Unmarked, List.getElem?_replicate, and_comm]

/-- The check of a permutation with a table of marks. -/
def validateByMarks? (rank : Nat) (perm : List Nat) : Option (Except ShapeError Unit) := do
  let valid ←
    if perm.length = rank then markAxes? rank (List.replicate rank false) perm else some false
  return if valid then .ok () else .error (.invalidPermutation rank perm)

/-- Marks tell the permutations of the axes from all other lists. -/
theorem validateByMarks?_eq (rank : Nat) (perm : List Nat) :
    validateByMarks? rank perm = some (validatePermutation rank perm) := by
  rw [validateByMarks?, validatePermutation]
  by_cases hlength : perm.length = rank
  · obtain ⟨valid, hpass, hvalid⟩ := markAxes?_eq (List.length_replicate (a := false)) perm
    rw [unmarked_replicate_iff] at hvalid
    have hsame : valid = isPermutation rank perm := by
      rw [Bool.eq_iff_iff, hvalid, isPermutation_eq_true_iff, and_iff_right hlength]
    rw [if_pos hlength, hpass, hsame]
    rfl
  · have hinvalid : ¬ isPermutation rank perm = true := fun h =>
      hlength (isPermutation_eq_true_iff.mp h).1
    rw [if_neg hlength, if_neg hinvalid]
    rfl

/-! ## Written places -/

/-- Writes the places of axes one after the other, each at its axis, unless the axis lies beyond the
table. -/
def writePlaces? (table : List Nat) (place : Nat) : (axes : List Nat) → Option (List Nat)
  | [] => some table
  | axis :: axes =>
    if axis < table.length then writePlaces? (table.set axis place) (place + 1) axes else none

/-- What a table holds after places were written, from a first one on. -/
structure PlacesWritten (table : List Nat) (place : Nat) (axes written : List Nat) : Prop where
  /-- The table is as long as before. -/
  length : written.length = table.length
  /-- Each listed axis has its place. -/
  places : ∀ i axis, axes[i]? = some axis → written[axis]? = some (place + i)
  /-- Every other axis has what it had. -/
  others : ∀ axis, axis ∉ axes → written[axis]? = table[axis]?

/-- The first place is kept when its axis is not listed again. -/
theorem PlacesWritten.cons (haxis : axis < table.length) (hnew : axis ∉ axes)
    (h : PlacesWritten (table.set axis place) (place + 1) axes written) :
    PlacesWritten table place (axis :: axes) written := by
  refine { length := by rw [h.length, List.length_set], places := ?_, others := ?_ }
  · intro i other hi
    cases i with
    | zero =>
      obtain rfl : axis = other := by simpa using hi
      rw [h.others axis hnew, List.getElem?_set_self haxis, Nat.add_zero]
    | succ i => rw [h.places i other (by simpa using hi), Nat.add_right_comm, Nat.add_assoc]
  · intro other hother
    have hne : axis ≠ other := fun heq => hother (heq ▸ List.mem_cons_self)
    have hrest : other ∉ axes := fun hmem => hother (List.mem_cons_of_mem _ hmem)
    rw [h.others other hrest, List.getElem?_set_ne hne]

/-- Axes that are not repeated get their places, and none of them lies beyond the table. -/
theorem writePlaces?_written (hbelow : ∀ axis ∈ axes, axis < table.length) (hnodup : axes.Nodup)
    (place : Nat) :
    ∃ written, writePlaces? table place axes = some written ∧
      PlacesWritten table place axes written := by
  induction axes generalizing table place with
  | nil =>
    refine ⟨table, rfl, { length := rfl, places := fun i axis hi => ?_, others := fun _ _ => rfl }⟩
    cases hi
  | cons axis axes ih =>
    obtain ⟨hnew, hrest⟩ := List.nodup_cons.mp hnodup
    have haxis : axis < table.length := hbelow axis List.mem_cons_self
    have htable : ∀ other ∈ axes, other < (table.set axis place).length := by
      intro other hother
      rw [List.length_set]
      exact hbelow other (List.mem_cons_of_mem _ hother)
    obtain ⟨written, hwritten, hholds⟩ := ih htable hrest (place + 1)
    exact ⟨written, by rw [writePlaces?, if_pos haxis, hwritten], hholds.cons haxis hnew⟩

theorem getElem?_standings (haxis : axis < perm.length) :
    (standings perm)[axis]? = some (perm.idxOf axis) := by
  rw [standings, List.getElem?_map, List.getElem?_range haxis, Option.map_some]

/-- The places of the axes of a permutation fill a table with its standings. -/
theorem writePlaces?_perm (h : perm.Perm (List.range rank)) :
    writePlaces? (List.replicate rank 0) 0 perm = some (standings perm) := by
  have hlength : perm.length = rank := length_of_perm h
  have hbelow : ∀ axis ∈ perm, axis < (List.replicate rank 0).length := by
    intro axis haxis
    rw [List.length_replicate]
    exact lt_of_perm h haxis
  obtain ⟨written, hwritten, hplaces⟩ :=
    writePlaces?_written hbelow (h.nodup_iff.mpr List.nodup_range) 0
  have hrank : written.length = rank := by rw [hplaces.length, List.length_replicate]
  rw [hwritten, Option.some.injEq]
  refine List.ext_getElem? fun axis => ?_
  by_cases haxis : axis < rank
  · -- No axis is left out, so none keeps the zero that the table was filled with.
    have hmem : axis ∈ perm := h.mem_iff.mpr (List.mem_range.mpr haxis)
    rw [hplaces.places _ axis (getElem?_idxOf hmem), getElem?_standings (hlength ▸ haxis),
      Nat.zero_add]
  · have hshort : (standings perm).length = rank := length_of_perm (standings_perm h)
    rw [List.getElem?_eq_none (by omega), List.getElem?_eq_none (by omega)]

/-- The inverse of a permutation, filled into a table. -/
def invertByWriting? (perm : List Nat) : Option (Except ShapeError (List Nat)) := do
  match ← validateByMarks? perm.length perm with
  | .ok () => return .ok (← writePlaces? (List.replicate perm.length 0) 0 perm)
  | .error cause => return .error cause

/-- Writing the places gives the inverse of every permutation, and refuses every other list. -/
theorem invertByWriting?_eq (perm : List Nat) :
    invertByWriting? perm = some (inversePermutation perm) := by
  rw [invertByWriting?, validateByMarks?_eq]
  simp only [bind, Option.bind]
  cases hvalid : validatePermutation perm.length perm with
  | error cause =>
    rw [inversePermutation, hvalid]
    rfl
  | ok =>
    have hperm := validatePermutation_eq_ok_iff.mp hvalid
    rw [inversePermutation_eq hperm]
    simp only [writePlaces?_perm hperm]
    rfl

/-! ## There and back -/

/-- Two lists that lead back from each other. -/
structure Inverts (perm inverse : List Nat) : Prop where
  /-- They are of one length. -/
  length : inverse.length = perm.length
  /-- At each axis that the permutation lists stands its place. -/
  back : ∀ i axis : Nat, perm[i]? = some axis → inverse[axis]? = some i
  /-- At each place that the inverse lists stands its axis. -/
  forth : ∀ axis i : Nat, inverse[axis]? = some i → perm[i]? = some axis

/-- Taken through a permutation into the order of the axes, a list names the places. -/
theorem getElem?_of_rearrange (hfirst : first.Perm (List.range rank))
    (hsecond : second.length = rank) (h : rearrange first second = List.range rank)
    (i axis : Nat) (hi : first[i]? = some axis) : second[axis]? = some i := by
  have hbelow : ∀ axis ∈ first, axis < second.length := by
    intro axis haxis
    rw [hsecond]
    exact lt_of_perm hfirst haxis
  have hlt : i < rank := by
    rw [← length_of_perm hfirst]
    exact (List.getElem?_eq_some_iff.mp hi).1
  rw [← ((takesFrom_iff hbelow).mpr h.symm).2 i axis hi, List.getElem?_range hlt]

theorem inverts_standings (h : perm.Perm (List.range rank)) : Inverts perm (standings perm) := by
  have hlength : perm.length = rank := length_of_perm h
  have hstandings : (standings perm).length = rank := length_of_perm (standings_perm h)
  exact
    { length := hstandings.trans hlength.symm
      back := getElem?_of_rearrange h hstandings (rearrange_of_standings h)
      forth := getElem?_of_rearrange (standings_perm h) hlength (rearrange_standings h) }

theorem standings_standings (h : perm.Perm (List.range rank)) :
    standings (standings perm) = perm := by
  obtain rfl := length_of_perm h
  have hback := standings_perm h
  exact rearrange_inj hback rfl (length_of_perm (standings_perm hback))
    ((rearrange_of_standings hback).trans (rearrange_standings h).symm)

/-- The lists that are accepted for a rank are those of as many axes, all below the rank and none
twice, which are the bijections of the axes; a table of marks tells them without being left. Each
has an inverse, which is filled into a table without leaving it and is accepted as well. Both lead
back from each other, and the inverse of the inverse is the list itself. -/
theorem validatePermutation_inverts (rank : Nat) (perm : List Nat) :
    (validatePermutation rank perm = .ok () ↔
      perm.length = rank ∧ (∀ axis ∈ perm, axis < rank) ∧ perm.Nodup) ∧
    (validatePermutation rank perm = .ok () ↔
      ∃ f : Fin rank → Fin rank, f.Bijective ∧ perm = List.ofFn fun i => (f i).val) ∧
    validateByMarks? rank perm = some (validatePermutation rank perm) ∧
    invertByWriting? perm = some (inversePermutation perm) ∧
    (validatePermutation rank perm = .ok () → ∃ inverse,
      inversePermutation perm = .ok inverse ∧ validatePermutation rank inverse = .ok () ∧
        Inverts perm inverse ∧ inversePermutation inverse = .ok perm) := by
  refine ⟨?_, ?_, validateByMarks?_eq rank perm, invertByWriting?_eq perm, fun hvalid => ?_⟩
  · rw [validatePermutation_eq_ok_iff, ← isPermutation_iff, isPermutation_eq_true_iff]
  · rw [validatePermutation_eq_ok_iff, perm_range_iff_bijective]
  · have hperm := validatePermutation_eq_ok_iff.mp hvalid
    have hback := standings_perm hperm
    refine ⟨standings perm, inversePermutation_eq hperm, validatePermutation_eq_ok_iff.mpr hback,
      inverts_standings hperm, ?_⟩
    rw [inversePermutation_eq hback, standings_standings hperm]

/-- Four axes of which none stays in its place. A list that names one of them twice is refused. -/
theorem validatePermutation_inverts_four :
    validatePermutation 4 [2, 0, 3, 1] = .ok () ∧
      inversePermutation [2, 0, 3, 1] = .ok [1, 3, 0, 2] ∧
      validatePermutation 4 [1, 3, 0, 2] = .ok () ∧ Inverts [2, 0, 3, 1] [1, 3, 0, 2] ∧
      inversePermutation [1, 3, 0, 2] = .ok [2, 0, 3, 1] ∧
      validatePermutation 4 [2, 0, 2, 1] ≠ .ok () := by
  have hvalid : validatePermutation 4 [2, 0, 3, 1] = .ok () := by decide
  obtain ⟨-, -, -, -, hinverts⟩ := validatePermutation_inverts 4 [2, 0, 3, 1]
  obtain ⟨inverse, hinverse, hback, hleads, htwice⟩ := hinverts hvalid
  obtain rfl : [1, 3, 0, 2] = inverse := Except.ok.inj hinverse
  refine ⟨hvalid, hinverse, hback, hleads, htwice, fun h => ?_⟩
  have hnodup := ((validatePermutation_inverts 4 [2, 0, 2, 1]).1.mp h).2.2
  exact absurd hnodup (by decide)

end NetTrial.Shape
