import NetTrial.Proofs.Staging
/-!
# The files of models

The extension of a model may hold a slash, so that its file need not be an entry of the root. An
extension without a dot still keeps it away from the manifest and from every tensor file, since
it stays at or below an entry that opens with the stem of models and has one dot.
-/

namespace NetTrial

open NetTrial.Path Text

namespace Area

variable {a : Area} {format : ModelFormat} {name : String}

/-- What the name of the file of a model opens with. -/
def modelOpening : List Char := "model.".toList

theorem toList_modelFile (format : ModelFormat) :
    (modelFile format).toList = modelOpening ++ format.extension.toList := by
  simp [modelFile, modelStem, modelOpening]

/-- The name of a tensor file has a dot before the stem of its role and one behind it. -/
theorem two_le_count_tensorFile (a : Area) (case : String) (role : Role) :
    2 ≤ (a.tensorFile case role).toList.count '.' := by
  rw [toList_tensorFile, List.count_append]
  have htwo : 2 ≤ (ending role a.format).count '.' := by
    cases role <;> cases a.format <;> decide
  omega

/-- An entry that opens with the stem of models has a name. -/
theorem isName_opening {piece : List Char} (h : '/' ∉ piece) :
    IsName (String.ofList (modelOpening ++ piece)) := by
  refine ⟨?_, ?_, fun he => ?_⟩
  · rw [String.toList_ofList, List.mem_append, not_or]
    exact ⟨by decide, h⟩
  · rw [Bool.eq_false_iff]
    intro hi
    rcases isIdle_iff.mp hi with he | he
    · exact absurd (congrArg String.toList he) (by simp [modelOpening])
    · exact absurd (congrArg String.toList he) (by simp [modelOpening])
  · exact absurd (congrArg String.toList he) (by simp [modelOpening])

/-- The path of the file of a model goes on from the root. -/
theorem relative_modelFile (format : ModelFormat) :
    startsWith "/" (modelFile format) = false := by
  rw [Bool.eq_false_iff]
  intro hs
  obtain ⟨more, hm⟩ := startsWith_iff.mp hs
  rw [toList_modelFile] at hm
  simp [modelOpening] at hm

/-- The path of the file of a model is an entry that opens with the stem, and what follows. -/
theorem pieces_modelFile (format : ModelFormat) :
    ∃ piece rest, splitOn '/' format.extension.toList = piece :: rest ∧
      pieces (modelFile format) =
        String.ofList (modelOpening ++ piece) :: rest.map String.ofList := by
  obtain ⟨piece, rest, hsplit⟩ := List.exists_cons_of_ne_nil
    (splitOn_ne_nil '/' format.extension.toList)
  refine ⟨piece, rest, hsplit, ?_⟩
  rw [pieces, toList_modelFile, splitOn_append_front (by decide) hsplit]
  rfl

/-- The file of a model stands at or below an entry that opens with the stem and has one dot. -/
theorem location_model (h : '.' ∉ format.extension.toList) :
    ∃ entry tail, location a.root ++ [entry] <+: location (join a.root (modelFile format)) ∧
      entry.toList = modelOpening ++ tail ∧ '.' ∉ tail := by
  obtain ⟨piece, rest, hsplit, hpieces⟩ := pieces_modelFile format
  have hdot : ∀ p ∈ piece :: rest, '.' ∉ p := fun p hp hd =>
    h (mem_of_mem_splitOn (hsplit ▸ hp) hd)
  have hslash : '/' ∉ piece := not_mem_of_mem_splitOn (hsplit ▸ List.mem_cons_self)
  -- A piece that moves up is spelled with dots.
  have hup : ".." ∉ rest.map String.ofList := by
    intro hm
    obtain ⟨p, hp, he⟩ := List.mem_map.mp hm
    refine hdot p (List.mem_cons_of_mem piece hp) ?_
    have hl := congrArg String.toList he
    rw [String.toList_ofList] at hl
    rw [hl]
    decide
  refine ⟨_, piece, ?_, String.toList_ofList, hdot piece List.mem_cons_self⟩
  rw [location_join_relative a.root (relative_modelFile format), hpieces, walk, List.foldl_cons,
    step_isName (isName_opening hslash)]
  exact prefix_walk hup

/-- An entry of the root where a model is put opens with the stem and has one dot. -/
theorem opening_of_location (h : '.' ∉ format.extension.toList)
    (hl : location (join a.root (modelFile format)) = location a.root ++ [name]) :
    ∃ tail, name.toList = modelOpening ++ tail ∧ '.' ∉ tail := by
  obtain ⟨entry, tail, hstarts, hentry, hdot⟩ := location_model (a := a) h
  rw [hl] at hstarts
  have hsame := entry_inj (hstarts.eq_of_length (by simp))
  exact ⟨tail, hsame ▸ hentry, hdot⟩

/-- A model is not put in place of the manifest. -/
theorem location_model_ne_manifest (h : '.' ∉ format.extension.toList) :
    location (join a.root (modelFile format)) ≠ a.manifestSpot := by
  intro hl
  obtain ⟨tail, hname, -⟩ := opening_of_location h hl
  simp [manifestName, modelOpening] at hname

/-- A model is not put in place of a tensor. -/
theorem location_model_ne_tensor (h : '.' ∉ format.extension.toList) (b : Area)
    (case : String) (role : Role) :
    location (join a.root (modelFile format)) ≠ location a.root ++ [b.tensorFile case role] := by
  intro hl
  obtain ⟨tail, hname, hdot⟩ := opening_of_location h hl
  have hcount := congrArg (List.count '.') hname
  rw [List.count_append, List.count_eq_zero_of_not_mem hdot] at hcount
  have htwo := b.two_le_count_tensorFile case role
  have hone : modelOpening.count '.' = 1 := by decide
  omega

/-- The file of a model does not have the name of a tensor file. -/
theorem modelFile_ne_tensorFile (h : '.' ∉ format.extension.toList) (b : Area) (case : String)
    (role : Role) : modelFile format ≠ b.tensorFile case role := by
  intro he
  have htwo := b.two_le_count_tensorFile case role
  rw [← he, toList_modelFile, List.count_append, List.count_eq_zero_of_not_mem h] at htwo
  have hone : modelOpening.count '.' = 1 := by decide
  omega

end Area

end NetTrial
