import NetTrial.Files.Tree
import NetTrial.Proofs.Paths
import NetTrial.Proofs.Results
/-!
# What file operations do

Each operation works at the location that its path leads to by spelling: success says what
was there before and what is there afterwards. A directory that a path leads to is spoken of
as standing; the entries of a standing directory are read, written and removed by name, with
no other question than whether the spelling is admitted and what is at the entry.
-/

namespace NetTrial.Files

open NetTrial.Path

variable {fs : Files} {loc : Location}

/-! ## Nodes -/

theorem get?_nil (fs : Files) : fs.get? [] = some .directory := if_pos rfl

theorem isDirectoryAt_iff : fs.isDirectoryAt loc = true ↔ fs.get? loc = some .directory := by
  rw [isDirectoryAt, beq_iff_eq]

theorem isDirectoryAt_nil (fs : Files) : fs.isDirectoryAt [] = true :=
  (isDirectoryAt_iff).mpr (get?_nil fs)

/-- A filter by location keeps or drops all that stands at a location. -/
theorem find?_filter_location (entries : List (Location × Node)) (keep : Location → Bool)
    (loc : Location) :
    (entries.filter fun e => keep e.1).find? (fun e => e.1 == loc) =
      if keep loc then entries.find? (fun e => e.1 == loc) else none := by
  induction entries with
  | nil => simp
  | cons e entries ih =>
    by_cases he : e.1 = loc
    · subst he
      by_cases hk : keep e.1 = true
      · simp [hk]
      · rw [List.filter_cons, if_neg hk, ih, if_neg hk, if_neg hk]
    · have hb : (e.1 == loc) = false := beq_eq_false_iff_ne.mpr he
      by_cases hk : keep e.1 = true
      · rw [List.filter_cons, if_pos hk, List.find?_cons, List.find?_cons, hb, ih]
      · rw [List.filter_cons, if_neg hk, List.find?_cons, hb, ih]

/-- A new node stands at its location and nowhere else. -/
theorem get?_set (fs : Files) {spot : Location} (h : spot ≠ []) (node : Node) (loc : Location) :
    (fs.set spot node).get? loc = if loc = spot then some node else fs.get? loc := by
  by_cases hn : loc = []
  · rw [if_neg (fun hl => h (hl.symm.trans hn)), hn, get?_nil, get?_nil]
  · rw [get?, get?, if_neg hn, if_neg hn, set, List.find?_append,
      find?_filter_location fs.entries (fun l => l != spot)]
    by_cases hl : loc = spot
    · simp [hl]
    · have hs : (spot == loc) = false := beq_eq_false_iff_ne.mpr (Ne.symm hl)
      simp [hl, hs]

/-- Dropped nodes are gone, all others stay; the top is never dropped. -/
theorem get?_drop (fs : Files) (test : Location → Bool) (h : loc ≠ []) :
    (fs.drop test).get? loc = if test loc then none else fs.get? loc := by
  rw [get?, get?, if_neg h, if_neg h, drop,
    find?_filter_location fs.entries (fun l => !test l)]
  by_cases ht : test loc = true
  · simp [ht]
  · simp [ht]

theorem get?_drop_of_kept (fs : Files) {test : Location → Bool} (h : test loc = false) :
    (fs.drop test).get? loc = fs.get? loc := by
  by_cases hl : loc = []
  · rw [hl, get?_nil, get?_nil]
  · rw [get?_drop fs test hl, h]
    rfl

theorem get?_drop_of_ne (fs : Files) {spot : Location} (h : loc ≠ spot) :
    (fs.drop (· == spot)).get? loc = fs.get? loc :=
  fs.get?_drop_of_kept (beq_eq_false_iff_ne.mpr h)

/-! ## Following -/

theorem follow_append (fs : Files) (loc : Location) (front back : List String) :
    fs.follow loc (front ++ back) =
      (fs.follow loc front).bind fun l => fs.follow l back := by
  induction front generalizing loc with
  | nil => rfl
  | cons piece front ih =>
    simp only [List.cons_append, follow]
    by_cases hd : fs.isDirectoryAt loc = true
    · rw [if_pos hd, if_pos hd]
      by_cases hi : isIdle piece = true
      · rw [if_pos hi, if_pos hi, ih]
      · rw [if_neg hi, if_neg hi]
        by_cases hb : piece = ".."
        · rw [if_pos hb, if_pos hb, ih]
        · rw [if_neg hb, if_neg hb]
          cases checkName piece with
          | error e => rfl
          | ok _ =>
            change (if _ then _ else _) = Except.bind (if _ then _ else _) _
            by_cases hs : (fs.get? (loc ++ [piece])).isSome = true
            · rw [if_pos hs, if_pos hs, ih]
            · rw [if_neg hs, if_neg hs]
              rfl
    · rw [if_neg hd, if_neg hd]
      rfl

/-- Pieces are followed one part after the other. -/
theorem follow_append_eq_ok {l : Location} {front back : List String} :
    fs.follow loc (front ++ back) = .ok l ↔
      ∃ mid, fs.follow loc front = .ok mid ∧ fs.follow mid back = .ok l := by
  rw [follow_append]
  exact bind_eq_ok_iff

/-- One piece moves by spelling when it can be followed. -/
theorem follow_cons_eq_ok {piece : String} {rest : List String} {l : Location} :
    fs.follow loc (piece :: rest) = .ok l ↔
      fs.isDirectoryAt loc = true ∧ fs.follow (step loc piece) rest = .ok l ∧
        (isIdle piece = true ∨ piece = ".." ∨
          checkName piece = .ok () ∧ (fs.get? (loc ++ [piece])).isSome = true) := by
  simp only [follow, step]
  by_cases hd : fs.isDirectoryAt loc = true
  · by_cases hi : isIdle piece = true
    · simp [hd, hi]
    · by_cases hb : piece = ".."
      · subst hb
        rw [if_pos hd, if_neg hi, if_pos rfl, if_neg hi, if_pos rfl]
        simp [hd]
      · rw [if_pos hd, if_neg hi, if_neg hb, if_neg hi, if_neg hb]
        cases hc : checkName piece with
        | error e =>
          constructor
          · intro h
            cases h
          · rintro ⟨-, -, h | h | ⟨h, -⟩⟩
            · exact absurd h hi
            · exact absurd h hb
            · cases h
        | ok _ =>
          change (if _ then _ else _) = _ ↔ _
          by_cases hs : (fs.get? (loc ++ [piece])).isSome = true
          · rw [if_pos hs]
            simp [hd, hs]
          · rw [if_neg hs]
            simp [hi, hb, hs]
  · simp [hd]

/-- A path can only lead to where its spelling leads. -/
theorem follow_eq_walk {ps : List String} {l : Location} (h : fs.follow loc ps = .ok l) :
    l = walk loc ps := by
  induction ps generalizing loc with
  | nil =>
    cases h
    rfl
  | cons piece ps ih =>
    obtain ⟨-, hrest, -⟩ := (follow_cons_eq_ok).mp h
    exact ih hrest

/-- Empty pieces stay in a directory. -/
theorem follow_replicate_empty (h : fs.isDirectoryAt loc = true) (count : Nat) :
    fs.follow loc (List.replicate count "") = .ok loc := by
  induction count with
  | zero => rfl
  | succ count ih => exact (follow_cons_eq_ok).mpr ⟨h, ih, Or.inl rfl⟩

/-- A path still leads on when every directory is kept and its end is still there. -/
theorem follow_mono {fs' : Files}
    (keep : ∀ d, fs.isDirectoryAt d = true → fs'.isDirectoryAt d = true)
    {ps : List String} {l : Location} (h : fs.follow loc ps = .ok l)
    (hl : (fs'.get? l).isSome = true) : fs'.follow loc ps = .ok l := by
  induction ps generalizing loc with
  | nil => exact h
  | cons piece ps ih =>
    obtain ⟨hd, hrest, hp⟩ := (follow_cons_eq_ok).mp h
    refine (follow_cons_eq_ok).mpr ⟨keep _ hd, ih hrest, ?_⟩
    rcases hp with hp | hp | ⟨hc, hs⟩
    · exact Or.inl hp
    · exact Or.inr (Or.inl hp)
    · by_cases hi : isIdle piece = true
      · exact Or.inl hi
      · by_cases hb : piece = ".."
        · exact Or.inr (Or.inl hb)
        · refine Or.inr (Or.inr ⟨hc, ?_⟩)
          rw [step, if_neg hi, if_neg hb] at hrest
          -- the entry is the end of the path, or a directory that is followed further
          cases ps with
          | nil =>
            cases hrest
            exact hl
          | cons next ps =>
            have hnext := ((follow_cons_eq_ok).mp hrest).1
            have hkept := (isDirectoryAt_iff).mp (keep _ hnext)
            rw [hkept]
            rfl

/-! ## Where operations work -/

theorem checkPath_eq_ok {path : String} :
    checkPath path = .ok () ↔
      Char.ofNat 0 ∉ path.toList ∧ path ≠ "" ∧ path.utf8ByteSize ≤ longestPath := by
  rw [checkPath]
  by_cases hz : path.toList.contains (Char.ofNat 0) = true
  · simp_all
  · by_cases he : path = ""
    · simp [he]
    · by_cases hl : longestPath < path.utf8ByteSize
      · simp_all
      · simp_all

/-- What a path that can be spoken of opens with can be spoken of, unless it is empty. -/
theorem checkPath_of_append {path rest : String} (h : checkPath (path ++ rest) = .ok ())
    (hne : path ≠ "") : checkPath path = .ok () := by
  obtain ⟨hz, -, hl⟩ := (checkPath_eq_ok).mp h
  rw [String.toList_append, List.mem_append, not_or] at hz
  rw [String.utf8ByteSize_append] at hl
  exact (checkPath_eq_ok).mpr ⟨hz.1, hne, by omega⟩

/-- A path that leads somewhere leads to its location. -/
theorem locate_eq_ok {path : String} {node : Node} :
    fs.locate path = .ok (loc, node) ↔
      checkPath path = .ok () ∧ fs.follow [] (pieces path) = .ok loc ∧
        fs.get? loc = some node := by
  rw [locate]
  constructor
  · intro h
    obtain ⟨⟨⟩, hc, h⟩ := bind_eq_ok_iff.mp h
    obtain ⟨l, hf, h⟩ := bind_eq_ok_iff.mp h
    cases hg : fs.get? l with
    | none =>
      rw [hg] at h
      cases h
    | some found =>
      rw [hg] at h
      cases h
      exact ⟨hc, hf, hg⟩
  · rintro ⟨hc, hf, hg⟩
    simp only [bind, Except.bind, hc, hf, hg]
    rfl

theorem locate_location {path : String} {node : Node} (h : fs.locate path = .ok (loc, node)) :
    loc = location path ∧ fs.get? (location path) = some node := by
  obtain ⟨-, hf, hn⟩ := (locate_eq_ok).mp h
  have hl : loc = location path := follow_eq_walk hf
  exact ⟨hl, hl ▸ hn⟩

/-- The target of a path, by its last named piece. -/
theorem target_of_named {path : String} {front : List String} {last : String}
    (hc : checkPath path = .ok ()) (hp : named path = front ++ [last]) :
    fs.target path = (fs.follow [] front).bind fun directory =>
      if fs.isDirectoryAt directory = true then
        if last = "." ∨ last = ".." then .ok (.itself last)
        else (checkName last).bind fun _ =>
          .ok (.entry directory last (Text.endsWith "/" path))
      else .error .notDirectory := by
  have hnamed : ((pieces path).reverse.dropWhile (· == "")).reverse = front ++ [last] := hp
  simp only [target, hc, hnamed, List.getLast?_concat, List.dropLast_concat, bind, Except.bind]
  cases fs.follow [] front with
  | error e => rfl
  | ok directory =>
    by_cases hd : fs.isDirectoryAt directory = true
    · by_cases hdots : last = "." ∨ last = ".."
      · simp [hd, hdots, pure, Except.pure]
      · simp [hd, hdots, pure, Except.pure]
    · simp [hd]

/-- How an entry is spelled that a path names. -/
structure Entry (fs : Files) (path : String) (directory : Location) (name : String) : Prop where
  /-- The path can be spoken of. -/
  admitted : checkPath path = .ok ()
  /-- The pieces before the name lead to the directory. -/
  leads : ∃ front, named path = front ++ [name] ∧ fs.follow [] front = .ok directory
  /-- The directory is there. -/
  parent : fs.isDirectoryAt directory = true
  /-- The name can be spoken of. -/
  short : checkName name = .ok ()
  /-- The name leads on. -/
  moves : isIdle name = false
  /-- The name does not lead back. -/
  forward : name ≠ ".."

theorem target_entry {path : String} {directory : Location} {name : String} {slash : Bool}
    (h : fs.target path = .ok (.entry directory name slash)) : fs.Entry path directory name := by
  obtain ⟨⟨⟩, hc, -⟩ := bind_eq_ok_iff.mp h
  cases hl : (named path).getLast? with
  | none =>
    have hnamed : ((pieces path).reverse.dropWhile (· == "")).reverse.getLast? = none := hl
    simp only [target, hc, hnamed, bind, Except.bind] at h
    cases h
  | some last =>
    obtain ⟨front, hp⟩ := List.getLast?_eq_some_iff.mp hl
    rw [target_of_named hc hp] at h
    obtain ⟨d, hf, h⟩ := bind_eq_ok_iff.mp h
    obtain ⟨hd, h⟩ := admit_eq_ok_iff.mp h
    by_cases hdots : last = "." ∨ last = ".."
    · rw [if_pos hdots] at h
      cases h
    · rw [if_neg hdots] at h
      rw [not_or] at hdots
      obtain ⟨⟨⟩, hn, h⟩ := bind_eq_ok_iff.mp h
      cases h
      refine ⟨hc, ⟨front, hp, hf⟩, hd, hn, ?_, hdots.2⟩
      simp [isIdle, named_getLast_ne hl, hdots.1]

theorem Entry.location_eq {path : String} {directory : Location} {name : String}
    (h : fs.Entry path directory name) : directory ++ [name] = location path := by
  obtain ⟨front, hp, hf⟩ := h.leads
  rw [location_eq_walk_named, hp, walk_append, ← follow_eq_walk hf]
  simp [walk, step, h.moves, h.forward]

/-- A directory at a named entry stands. -/
theorem Entry.stands {path : String} {directory : Location} {name : String}
    (h : fs.Entry path directory name) {fs' : Files}
    (keep : ∀ d, fs.isDirectoryAt d = true → fs'.isDirectoryAt d = true)
    (hd : fs'.isDirectoryAt (location path) = true) :
    fs'.follow [] (pieces path) = .ok (location path) := by
  obtain ⟨front, hp, hf⟩ := h.leads
  obtain ⟨count, hpieces⟩ := pieces_eq_named path
  have hfront : fs'.follow [] front = .ok directory := by
    refine follow_mono keep hf ?_
    rw [isDirectoryAt_iff.mp (keep _ h.parent)]
    rfl
  have hname : fs'.follow directory [name] = .ok (location path) := by
    refine (follow_cons_eq_ok).mpr ⟨keep _ h.parent, ?_, Or.inr (Or.inr ⟨h.short, ?_⟩)⟩
    · rw [step, if_neg (by simp [h.moves]), if_neg h.forward, h.location_eq]
      rfl
    · rw [h.location_eq, isDirectoryAt_iff.mp hd]
      rfl
  rw [hpieces, hp]
  exact (follow_append_eq_ok).mpr ⟨_, (follow_append_eq_ok).mpr ⟨_, hfront, hname⟩,
    follow_replicate_empty hd count⟩

theorem read_eq_ok {path : String} {bytes : Text.Bytes} :
    fs.read path = .ok bytes ↔ ∃ loc, fs.locate path = .ok (loc, .file bytes) := by
  rw [read, bind_eq_ok_iff]
  constructor
  · rintro ⟨⟨loc, _ | _⟩, hl, h⟩
    · cases h
      exact ⟨loc, hl⟩
    · cases h
  · rintro ⟨loc, hl⟩
    exact ⟨_, hl, rfl⟩

theorem isFile_iff {path : String} :
    fs.isFile path = true ↔ ∃ bytes, fs.read path = .ok bytes := by
  simp only [read_eq_ok, isFile]
  cases hl : fs.locate path with
  | error e => simp
  | ok found =>
    obtain ⟨loc, _ | _⟩ := found
    · simp
    · simp

theorem pathExists_iff {path : String} :
    fs.pathExists path = true ↔ ∃ loc node, fs.locate path = .ok (loc, node) := by
  rw [pathExists]
  cases hl : fs.locate path with
  | error e => simp [Except.toBool]
  | ok found =>
    obtain ⟨loc, node⟩ := found
    simp [Except.toBool]

/-- Nothing is found at a path that leads nowhere. -/
theorem pathExists_eq_false {path : String} (h : fs.get? (location path) = none) :
    fs.pathExists path = false := by
  rw [Bool.eq_false_iff]
  intro hexists
  obtain ⟨loc, node, hlocate⟩ := (pathExists_iff).mp hexists
  rw [(locate_location hlocate).2] at h
  cases h

/-- An entry stays one while no directory is lost. -/
theorem Entry.mono {path : String} {directory : Location} {name : String}
    (h : fs.Entry path directory name) {fs' : Files}
    (keep : ∀ d, fs.isDirectoryAt d = true → fs'.isDirectoryAt d = true) :
    fs'.Entry path directory name := by
  obtain ⟨front, hp, hf⟩ := h.leads
  refine ⟨h.admitted, ⟨front, hp, follow_mono keep hf ?_⟩, keep _ h.parent, h.short, h.moves,
    h.forward⟩
  rw [isDirectoryAt_iff.mp (keep _ h.parent)]
  rfl

/-- A path that does not end in a slash leads to its entry. -/
theorem Entry.target {path : String} {directory : Location} {name : String}
    (h : fs.Entry path directory name) :
    fs.target path = .ok (.entry directory name (Text.endsWith "/" path)) := by
  obtain ⟨front, hp, hf⟩ := h.leads
  have hdots : ¬ (name = "." ∨ name = "..") := by
    rintro (he | he)
    · have hmoves := h.moves
      rw [he] at hmoves
      cases hmoves
    · exact h.forward he
  rw [target_of_named h.admitted hp, hf]
  simp only [Except.bind, h.parent, if_true, if_neg hdots, h.short]

/-- What was read stands at the location of the path. -/
theorem read_location {path : String} {bytes : Text.Bytes} (h : fs.read path = .ok bytes) :
    fs.get? (location path) = some (.file bytes) := by
  obtain ⟨loc, hl⟩ := (read_eq_ok).mp h
  exact (locate_location hl).2

/-- A path that can be written names an entry and does not end in a slash. -/
theorem entry_of_writable {path : String} {old : Option Text.Bytes} (h : fs.writable path = .ok (loc, old)) :
    (∃ directory name, fs.Entry path directory name) ∧ Text.endsWith "/" path = false := by
  obtain ⟨t, ht, h⟩ := bind_eq_ok_iff.mp h
  cases t with
  | itself piece => cases h
  | entry directory name slash =>
    have he := target_entry ht
    have hslash := he.target
    rw [ht] at hslash
    cases hslash
    refine ⟨⟨directory, name, he⟩, ?_⟩
    rw [Bool.eq_false_iff]
    exact (refuse_eq_ok_iff.mp h).1

/-- A file is written at the location of its path, in a directory and not over one. -/
theorem writable_location {path : String} {old : Option Text.Bytes}
    (h : fs.writable path = .ok (loc, old)) :
    loc = location path ∧ loc ≠ [] ∧ fs.isDirectoryAt loc.dropLast = true ∧
      fs.get? loc = old.map .file := by
  obtain ⟨⟨directory, name, he⟩, hslash⟩ := entry_of_writable h
  rw [writable, he.target, hslash] at h
  simp only [bind, Except.bind, Bool.false_eq_true, if_false] at h
  cases hg : fs.get? (directory ++ [name]) with
  | none =>
    rw [hg] at h
    cases h
    exact ⟨he.location_eq, by simp, by simpa using he.parent, hg⟩
  | some node =>
    rw [hg] at h
    cases node with
    | directory => cases h
    | file bytes =>
      cases h
      exact ⟨he.location_eq, by simp, by simpa using he.parent, hg⟩

/-- A file is put at the location of its path. -/
structure Placed (fs : Files) (path : String) (bytes : Text.Bytes) (fs' : Files) : Prop where
  /-- The file is there, and all else is as it was. -/
  same : fs' = fs.set (location path) (.file bytes)
  /-- The path does not lead to the top. -/
  below : location path ≠ []
  /-- A directory holds the file. -/
  parent : fs.isDirectoryAt (location path).dropLast = true
  /-- No directory is lost. -/
  free : fs.get? (location path) ≠ some .directory

theorem placed_of_writable {path : String} {old : Option Text.Bytes} {bytes : Text.Bytes}
    (h : fs.writable path = .ok (loc, old)) :
    fs.Placed path bytes (fs.set loc (.file bytes)) := by
  obtain ⟨rfl, hne, hp, hg⟩ := writable_location h
  refine ⟨rfl, hne, hp, ?_⟩
  rw [hg]
  cases old <;> simp

theorem write_placed {path : String} {bytes : Text.Bytes} {fs' : Files}
    (h : fs.write path bytes = .ok fs') : fs.Placed path bytes fs' := by
  obtain ⟨found, hw, h⟩ := bind_eq_ok_iff.mp h
  cases h
  exact placed_of_writable hw

theorem append_placed {path : String} {bytes : Text.Bytes} {fs' : Files}
    (h : fs.append path bytes = .ok fs') : ∃ all, fs.Placed path all fs' := by
  obtain ⟨found, hw, h⟩ := bind_eq_ok_iff.mp h
  cases h
  exact ⟨_, placed_of_writable hw⟩

/-- A new directory is made where nothing was, in a directory. -/
theorem makeDirectory_ok {path : String} {fs' : Files} (h : fs.makeDirectory path = .ok fs') :
    fs' = fs.set (location path) .directory ∧ location path ≠ [] ∧
      fs.isDirectoryAt (location path).dropLast = true ∧ fs.get? (location path) = none := by
  obtain ⟨t, ht, h⟩ := bind_eq_ok_iff.mp h
  cases t with
  | itself piece => cases h
  | entry directory name slash =>
    obtain ⟨hn, h⟩ := refuse_eq_ok_iff.mp h
    cases h
    have he := target_entry ht
    rw [← he.location_eq]
    refine ⟨rfl, by simp, by simpa using he.parent, ?_⟩
    simpa using hn

/-- A removed file was at the location of its path. -/
theorem removeFile_ok {path : String} {fs' : Files} (h : fs.removeFile path = .ok fs') :
    fs' = fs.drop (· == location path) ∧ ∃ bytes, fs.get? (location path) = some (.file bytes) := by
  obtain ⟨t, ht, h⟩ := bind_eq_ok_iff.mp h
  cases t with
  | itself piece => cases h
  | entry directory name slash =>
    cases hg : fs.get? (directory ++ [name]) with
    | none =>
      simp only [hg] at h
      cases h
    | some node =>
      simp only [hg] at h
      cases node with
      | directory => cases h
      | file bytes =>
        obtain ⟨-, h⟩ := refuse_eq_ok_iff.mp h
        cases h
        rw [← (target_entry ht).location_eq]
        exact ⟨rfl, bytes, hg⟩

/-! ## Entries of a standing directory -/

/-- A directory stands at a path. -/
def Stands (fs : Files) (path : String) : Prop :=
  fs.follow [] (pieces path) = .ok (location path) ∧ fs.isDirectoryAt (location path) = true

/-- Whether an entry of a directory can be spoken of at all. -/
def admits (root name : String) : Except OsError Unit := do
  checkPath (join root name)
  checkName name

variable {root name : String}

theorem admits_eq_ok :
    admits root name = .ok () ↔ checkPath (join root name) = .ok () ∧ checkName name = .ok () := by
  rw [admits]
  cases checkPath (join root name) with
  | error e => simp [bind, Except.bind]
  | ok _ => simp [bind, Except.bind]

theorem follow_join (fs : Files) (root : String) (hn : IsName name) :
    fs.follow [] (pieces (join root name)) =
      (fs.follow [] (pieces root)).bind fun l => fs.follow l [name] := by
  obtain ⟨front, hp, hb⟩ := pieces_join root hn
  rw [hp, follow_append]
  rcases hb with hb | hb
  · rw [hb]
  · rw [hb, follow_append]
    cases fs.follow [] front with
    | error e => rfl
    | ok l =>
      change fs.follow l [name] = (fs.follow l [""]).bind fun l => fs.follow l [name]
      by_cases hd : fs.isDirectoryAt l = true
      · simp [follow, isIdle, hd, Except.bind]
      · simp [follow, hd, Except.bind]

/-- A path through a directory leads on only if the directory stands. -/
theorem stands_of_follow_join (hn : IsName name) {l : Location}
    (h : fs.follow [] (pieces (join root name)) = .ok l) : fs.Stands root := by
  rw [follow_join fs root hn] at h
  cases hf : fs.follow [] (pieces root) with
  | error e =>
    rw [hf] at h
    cases h
  | ok d =>
    rw [hf] at h
    have hd : d = location root := follow_eq_walk hf
    exact ⟨hd ▸ hf, hd ▸ (follow_cons_eq_ok.mp h).1⟩

/-- An entry is found when its spelling is admitted and something is there. -/
theorem Stands.locate_join (h : fs.Stands root) (hn : IsName name) :
    fs.locate (join root name) = (admits root name).bind fun _ =>
      match fs.get? (location root ++ [name]) with
      | some node => .ok (location root ++ [name], node)
      | none => .error .notFound := by
  obtain ⟨hf, hd⟩ := h
  simp only [locate, admits, follow_join fs root hn, hf, bind, Except.bind, follow, hd, if_true,
    hn.moves, Bool.false_eq_true, if_false, hn.forward]
  cases checkPath (join root name) with
  | error e => rfl
  | ok _ =>
    cases checkName name with
    | error e => rfl
    | ok _ =>
      cases hg : fs.get? (location root ++ [name]) with
      | none => simp
      | some node =>
        simp only [Option.isSome_some, if_true, hg, pure, Except.pure]

/-- What is found at an entry shows that the directory stands. -/
theorem stands_of_locate_join (hn : IsName name) {node : Node}
    (h : fs.locate (join root name) = .ok (loc, node)) : fs.Stands root :=
  stands_of_follow_join hn (locate_eq_ok.mp h).2.1

theorem Stands.read_join (h : fs.Stands root) (hn : IsName name) :
    fs.read (join root name) = (admits root name).bind fun _ =>
      match fs.get? (location root ++ [name]) with
      | some (.file bytes) => .ok bytes
      | some .directory => .error .isDirectory
      | none => .error .notFound := by
  rw [read, h.locate_join hn]
  cases admits root name with
  | error e => rfl
  | ok _ =>
    rcases fs.get? (location root ++ [name]) with _ | _ | _ <;> rfl

/-- A file of a directory is read when the directory stands, the spelling is admitted and the
file is there. -/
theorem read_join_eq_ok (hn : IsName name) {bytes : Text.Bytes} :
    fs.read (join root name) = .ok bytes ↔
      fs.Stands root ∧ admits root name = .ok () ∧
        fs.get? (location root ++ [name]) = some (.file bytes) := by
  constructor
  · intro h
    obtain ⟨loc, hl⟩ := read_eq_ok.mp h
    have hs := stands_of_locate_join hn hl
    have hg := read_location h
    rw [location_join root hn] at hg
    rw [hs.read_join hn] at h
    cases ha : admits root name with
    | error e =>
      rw [ha] at h
      cases h
    | ok _ => exact ⟨hs, rfl, hg⟩
  · rintro ⟨hs, ha, hg⟩
    rw [hs.read_join hn, ha, hg]
    rfl

theorem isFile_join_iff (hn : IsName name) :
    fs.isFile (join root name) = true ↔
      fs.Stands root ∧ admits root name = .ok () ∧
        ∃ bytes, fs.get? (location root ++ [name]) = some (.file bytes) := by
  rw [isFile_iff]
  constructor
  · rintro ⟨bytes, h⟩
    obtain ⟨hs, ha, hg⟩ := (read_join_eq_ok hn).mp h
    exact ⟨hs, ha, bytes, hg⟩
  · rintro ⟨hs, ha, bytes, hg⟩
    exact ⟨bytes, (read_join_eq_ok hn).mpr ⟨hs, ha, hg⟩⟩

/-- An entry of a standing directory is the target of its path. -/
theorem Stands.target_join (h : fs.Stands root) (hn : IsName name) :
    fs.target (join root name) = (admits root name).bind fun _ =>
      .ok (.entry (location root) name false) := by
  obtain ⟨hf, hd⟩ := h
  obtain ⟨front, hp, hb⟩ := named_join root hn
  have hfront : fs.follow [] front = .ok (location root) := by
    rcases hb with hb | hb
    · rw [← hb, hf]
    · rw [hb] at hf
      obtain ⟨l, hx, hl⟩ := follow_append_eq_ok.mp hf
      have hroot : location root = l := follow_eq_walk hl
      rw [hroot, hx]
  rw [admits]
  cases hc : checkPath (join root name) with
  | error e =>
    rw [target, hc]
    rfl
  | ok _ =>
    rw [target_of_named hc hp, hfront, endsWith_slash_join root hn]
    simp only [Except.bind, hd, if_true, hn.ne_dot, hn.forward, or_self, if_false]
    rfl

/-- A file is written to an entry unless a directory is there. -/
theorem Stands.write_join (h : fs.Stands root) (hn : IsName name) (bytes : Text.Bytes) :
    fs.write (join root name) bytes = (admits root name).bind fun _ =>
      if fs.get? (location root ++ [name]) = some .directory then .error .isDirectory
      else .ok (fs.set (location root ++ [name]) (.file bytes)) := by
  simp only [write, writable, h.target_join hn, bind, Except.bind]
  cases admits root name with
  | error e => rfl
  | ok _ =>
    cases hg : fs.get? (location root ++ [name]) with
    | none => simp [hg, pure, Except.pure]
    | some node => cases node <;> simp [hg, pure, Except.pure]

/-- A file is removed from an entry when it is there. -/
theorem Stands.removeFile_join (h : fs.Stands root) (hn : IsName name) :
    fs.removeFile (join root name) = (admits root name).bind fun _ =>
      match fs.get? (location root ++ [name]) with
      | none => .error .notFound
      | some .directory => .error .isDirectory
      | some (.file _) => .ok (fs.drop (· == location root ++ [name])) := by
  simp only [removeFile, h.target_join hn, bind, Except.bind]
  cases admits root name with
  | error e => rfl
  | ok _ =>
    cases hg : fs.get? (location root ++ [name]) with
    | none => simp [hg]
    | some node => cases node <;> simp [hg, pure, Except.pure]

/-- A directory still stands when every directory is kept. -/
theorem Stands.mono {fs' : Files} {path : String} (h : fs.Stands path)
    (keep : ∀ d, fs.isDirectoryAt d = true → fs'.isDirectoryAt d = true) : fs'.Stands path := by
  obtain ⟨hf, hd⟩ := h
  have hd' := keep _ hd
  refine ⟨follow_mono keep hf ?_, hd'⟩
  rw [isDirectoryAt_iff.mp hd']
  rfl

theorem stands_iff_locate {path : String} (hc : checkPath path = .ok ()) :
    fs.Stands path ↔ fs.locate path = .ok (location path, .directory) := by
  rw [locate_eq_ok, Stands, isDirectoryAt_iff]
  simp [hc]

end NetTrial.Files
