import NetTrial.Proofs.Tree
import NetTrial.Trial.Invocation
/-!
# The names of staged files

Case, role and format are told by the name of a tensor file, whatever characters the case
holds. No tensor file has the name of the manifest or of the artifact. A case that may be
staged makes names of entries; one that may not still makes a path that ends in such a name,
so that it never leads to the manifest or to the artifact.
-/

namespace NetTrial

open NetTrial.Path

namespace Area

variable (a : Area)

/-- The name of the manifest. -/
def manifestName : String := "manifest.json"

/-- The name of the artifact. -/
def artifactName : String := "model.kmodel"

/-- The name of the file of a graph model. -/
def graphName : String := modelFile .graph

/-- The names of the files that are no tensor files. -/
def fixedNames : List String := [manifestName, artifactName, graphName]

theorem manifest_fixed : manifestName ∈ fixedNames := by decide

theorem artifact_fixed : artifactName ∈ fixedNames := by decide

theorem graph_fixed : graphName ∈ fixedNames := by decide

theorem isName_manifest : IsName manifestName := ⟨by decide, by decide, by decide⟩

theorem isName_artifact : IsName artifactName := ⟨by decide, by decide, by decide⟩

theorem isName_graph : IsName graphName := ⟨by decide, by decide, by decide⟩

/-- What follows the case in the name of a tensor file. -/
def ending (role : Role) (format : DatasetFormat) : List Char :=
  '.' :: (role.stem.toList ++ '.' :: format.extension.toList)

theorem toList_tensorFile (case : String) (role : Role) :
    (a.tensorFile case role).toList = case.toList ++ ending role a.format := by
  simp [tensorFile, ending]

/-- The name of a tensor file tells case, role and format. -/
theorem tensorFile_inj {a b : Area} {case case' : String} {role role' : Role}
    (h : a.tensorFile case role = b.tensorFile case' role') :
    case = case' ∧ role = role' ∧ a.format = b.format := by
  have hl := congrArg String.toList h
  rw [toList_tensorFile, toList_tensorFile] at hl
  have hr := congrArg List.reverse hl
  rw [List.reverse_append, List.reverse_append] at hr
  -- the endings are compared from the last character on
  have hend : role = role' ∧ a.format = b.format := by
    revert hr
    cases role <;> cases role' <;> cases a.format <;> cases b.format <;>
      simp [ending, Role.stem, DatasetFormat.extension]
  obtain ⟨hrole, hformat⟩ := hend
  rw [hrole, hformat] at hl
  exact ⟨String.toList_inj.mp (List.append_cancel_right hl), hrole, hformat⟩

/-- The last characters of a file name. -/
theorem eq_drop_of_eq_append {α : Type} {whole front back : List α} (h : whole = front ++ back) :
    whole.drop (whole.length - back.length) = back := by
  subst h
  rw [List.length_append, Nat.add_sub_cancel, List.drop_left]

/-- No tensor file has the name of one of the other files. -/
theorem ending_ne_fixed {name : String} (h : name ∈ fixedNames) (role : Role)
    (format : DatasetFormat) : ¬ ∃ front, name.toList = front ++ ending role format := by
  rintro ⟨front, he⟩
  have hd := eq_drop_of_eq_append he
  clear he
  revert hd
  revert name
  cases role <;> cases format <;> decide

theorem tensorFile_ne_fixed {name : String} (h : name ∈ fixedNames) (case : String)
    (role : Role) : a.tensorFile case role ≠ name := by
  intro he
  exact ending_ne_fixed h role a.format ⟨case.toList, by rw [← he, toList_tensorFile]⟩

/-- What does not name something outside or hidden names an entry. -/
theorem isName_of_fit {name : String} (h : isUnfitName name = false) : IsName name := by
  simp only [isUnfitName, Bool.or_eq_false_iff, List.any_eq_false] at h
  obtain ⟨⟨hblank, hslash⟩, hdot⟩ := h
  refine ⟨fun hs => absurd (hslash '/' hs) (by simp), ?_, ?_⟩
  · rw [Bool.eq_false_iff]
    intro hi
    rcases isIdle_iff.mp hi with rfl | rfl
    · exact absurd hblank (by decide)
    · exact absurd hdot (by decide)
  · rintro rfl
    exact absurd hdot (by decide)

/-- A case that may be staged. -/
theorem checkCase_ok {case : String} (h : checkCase case = .ok ()) :
    '/' ∉ case.toList ∧ case ≠ modelStem := by
  rw [checkCase] at h
  by_cases hc : (isUnfitName case || case == modelStem) = true
  · rw [if_pos hc] at h
    cases h
  · simp only [Bool.not_eq_true, Bool.or_eq_false_iff, beq_eq_false_iff_ne] at hc
    exact ⟨(isName_of_fit hc.1).whole, hc.2⟩

theorem isName_of_ending {name : String} {front : List Char} {role : Role}
    {format : DatasetFormat} (h : name.toList = front ++ ending role format)
    (hs : '/' ∉ front) : IsName name := by
  have hlen : 3 ≤ name.toList.length := by
    rw [h, List.length_append]
    have : 3 ≤ (ending role format).length := by
      cases role <;> cases format <;> decide
    omega
  refine ⟨?_, ?_, ?_⟩
  · rw [h, List.mem_append, not_or]
    refine ⟨hs, ?_⟩
    cases role <;> cases format <;> decide
  · rw [Bool.eq_false_iff]
    intro hi
    rcases isIdle_iff.mp hi with rfl | rfl
    · exact absurd hlen (by decide)
    · exact absurd hlen (by decide)
  · rintro rfl
    exact absurd hlen (by decide)

/-- A case without a slash makes names of entries. -/
theorem isName_tensorFile {case : String} (h : '/' ∉ case.toList) (role : Role) :
    IsName (a.tensorFile case role) :=
  isName_of_ending (a.toList_tensorFile case role) h

/-! ## Where the files are -/

/-- What is put behind a list goes to its last piece. -/
theorem splitOn_append_of_not_mem {separator : Char} {init : List (List Char)}
    {last front back : List Char} (h : Text.splitOn separator front = init ++ [last])
    (hb : separator ∉ back) : Text.splitOn separator (front ++ back) = init ++ [last ++ back] := by
  induction front generalizing init last with
  | nil =>
    have hl : init = [] ∧ last = [] := by
      cases init with
      | nil => simpa [Text.splitOn, eq_comm] using h
      | cons p ps => simp [Text.splitOn] at h
    rw [hl.1, hl.2]
    exact Text.splitOn_of_not_mem hb
  | cons c front ih =>
    by_cases hc : c = separator
    · subst hc
      rw [Text.splitOn_separator_cons] at h
      rw [List.cons_append, Text.splitOn_separator_cons]
      cases init with
      | nil =>
        simp only [List.nil_append, List.cons.injEq] at h
        exact absurd h.2 (Text.splitOn_ne_nil c front)
      | cons p ps =>
        simp only [List.cons_append, List.cons.injEq] at h
        rw [ih h.2, ← h.1]
        rfl
    · obtain ⟨piece, pieces, hs⟩ := List.exists_cons_of_ne_nil (Text.splitOn_ne_nil separator front)
      rw [Text.splitOn_cons_of_ne hc hs] at h
      cases init with
      | nil =>
        simp only [List.nil_append, List.cons.injEq] at h
        obtain ⟨rfl, rfl⟩ := h
        have hrest : Text.splitOn separator (front ++ back) = [] ++ [piece ++ back] :=
          ih (by simpa using hs)
        exact Text.splitOn_cons_of_ne hc (by simpa using hrest)
      | cons p ps =>
        simp only [List.cons_append, List.cons.injEq] at h
        obtain ⟨rfl, rfl⟩ := h
        have hrest : Text.splitOn separator (front ++ back) = (piece :: ps) ++ [last ++ back] :=
          ih (by simpa using hs)
        exact Text.splitOn_cons_of_ne hc (by simpa using hrest)

theorem toList_join (base name : String) :
    ∃ front, (join base name).toList = front ++ name.toList := by
  rw [join]
  split
  · exact ⟨[], rfl⟩
  · split
    · exact ⟨base.toList, by simp⟩
    · exact ⟨base.toList ++ ['/'], by simp⟩

/-- The path of a tensor file ends in a name with the ending of role and format, whatever the
case. -/
theorem location_tensorPath (case : String) (role : Role) :
    ∃ directory name, location (a.tensorPath case role) = directory ++ [name] ∧
      ∃ front, name.toList = front ++ ending role a.format := by
  obtain ⟨before, hbefore⟩ := toList_join a.root (a.tensorFile case role)
  rw [toList_tensorFile, ← List.append_assoc] at hbefore
  have hend : '/' ∉ ending role a.format := by
    cases role <;> cases a.format <;> decide
  obtain ⟨init, last, hsplit⟩ : ∃ init last,
      Text.splitOn '/' (before ++ case.toList) = init ++ [last] :=
    ⟨_, _, (List.dropLast_concat_getLast (Text.splitOn_ne_nil '/' _)).symm⟩
  have hlast : '/' ∉ last := Text.not_mem_of_mem_splitOn (hsplit ▸ List.mem_concat_self)
  have hname : IsName (String.ofList (last ++ ending role a.format)) :=
    isName_of_ending String.toList_ofList hlast
  have hpieces : pieces (a.tensorPath case role) =
      init.map String.ofList ++ [String.ofList (last ++ ending role a.format)] := by
    rw [pieces, tensorPath, hbefore, splitOn_append_of_not_mem hsplit hend, List.map_append]
    rfl
  refine ⟨walk [] (init.map String.ofList), _, ?_, last, String.toList_ofList⟩
  rw [location, hpieces, walk_append]
  exact step_isName hname _

/-- No tensor file, whatever the case, is where one of the other files is. -/
theorem location_tensorPath_ne_fixed {name : String} (h : name ∈ fixedNames) (case : String)
    (role : Role) : location (a.tensorPath case role) ≠ location a.root ++ [name] := by
  obtain ⟨directory, last, hl, hlast⟩ := a.location_tensorPath case role
  rw [hl]
  intro he
  have hname := congrArg List.getLast? he
  simp only [List.getLast?_concat, Option.some.injEq] at hname
  rw [hname] at hlast
  exact ending_ne_fixed h role a.format hlast

end Area

end NetTrial
