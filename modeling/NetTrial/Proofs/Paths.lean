import NetTrial.Files.Path
/-!
# Paths and where they lead

The pieces of a joined path are those of the base and then the name. Walking the pieces from
a location by spelling alone, without asking what is there, gives the only location that the
path can lead to.
-/

namespace NetTrial

namespace Text

/-! ## Splitting at a separator -/

variable {separator : Char}

theorem splitOn_nil (separator : Char) : splitOn separator [] = [[]] := rfl

theorem splitOn_cons (separator c : Char) (cs : List Char) :
    splitOn separator (c :: cs) =
      match splitOn separator cs with
      | [] => [[c]]
      | piece :: pieces =>
        if c == separator then [] :: piece :: pieces else (c :: piece) :: pieces := rfl

theorem splitOn_ne_nil (separator : Char) (cs : List Char) : splitOn separator cs ≠ [] := by
  cases cs with
  | nil => simp [splitOn_nil]
  | cons c cs =>
    rw [splitOn_cons]
    split
    · simp
    · split <;> simp

theorem splitOn_separator_cons (separator : Char) (cs : List Char) :
    splitOn separator (separator :: cs) = [] :: splitOn separator cs := by
  have hn := splitOn_ne_nil separator cs
  rw [splitOn_cons]
  cases hs : splitOn separator cs with
  | nil => exact absurd hs hn
  | cons piece pieces => simp

/-- A character that is no separator goes to the first piece. -/
theorem splitOn_cons_of_ne {c : Char} (h : c ≠ separator) {cs piece : List Char}
    {pieces : List (List Char)} (hs : splitOn separator cs = piece :: pieces) :
    splitOn separator (c :: cs) = (c :: piece) :: pieces := by
  have hc : (c == separator) = false := beq_eq_false_iff_ne.mpr h
  simp only [splitOn_cons, hs, hc, Bool.false_eq_true, if_false]

/-- A list is split at each separator on its own. -/
theorem splitOn_append_separator (front back : List Char) :
    splitOn separator (front ++ separator :: back) =
      splitOn separator front ++ splitOn separator back := by
  induction front with
  | nil => exact splitOn_separator_cons separator back
  | cons c front ih =>
    by_cases hc : c = separator
    · subst hc
      rw [List.cons_append, splitOn_separator_cons, ih, splitOn_separator_cons]
      rfl
    · obtain ⟨piece, pieces, hs⟩ := List.exists_cons_of_ne_nil (splitOn_ne_nil separator front)
      rw [hs, List.cons_append] at ih
      rw [List.cons_append, splitOn_cons_of_ne hc ih, splitOn_cons_of_ne hc hs]
      rfl

/-- What is put in front of a list, without a separator in it, goes to its first piece. -/
theorem splitOn_append_front {front back piece : List Char}
    {rest : List (List Char)} (hf : separator ∉ front)
    (h : splitOn separator back = piece :: rest) :
    splitOn separator (front ++ back) = (front ++ piece) :: rest := by
  induction front with
  | nil => exact h
  | cons c front ih =>
    rw [List.mem_cons, not_or] at hf
    rw [List.cons_append, splitOn_cons_of_ne (Ne.symm hf.1) (ih hf.2)]
    rfl

/-- A list without the separator is one piece. -/
theorem splitOn_of_not_mem {cs : List Char} (h : separator ∉ cs) :
    splitOn separator cs = [cs] := by
  have hs := splitOn_append_front h (rfl : splitOn separator [] = [[]])
  rwa [List.append_nil] at hs

/-- Pieces that hold no separator, with one in front of each but the first, are split into these
pieces. -/
theorem splitOn_flatMap {front : List Char} (hf : separator ∉ front) {pieces : List (List Char)}
    (h : ∀ piece ∈ pieces, separator ∉ piece) :
    splitOn separator (front ++ pieces.flatMap fun piece => separator :: piece) =
      front :: pieces := by
  induction pieces generalizing front with
  | nil => rw [List.flatMap_nil, List.append_nil, splitOn_of_not_mem hf]
  | cons piece pieces ih =>
    have hpiece := ih (h piece List.mem_cons_self) fun p hp => h p (List.mem_cons_of_mem piece hp)
    rw [List.flatMap_cons, List.cons_append, splitOn_append_separator, splitOn_of_not_mem hf,
      hpiece]
    rfl

theorem not_mem_of_mem_splitOn {cs piece : List Char} (h : piece ∈ splitOn separator cs) :
    separator ∉ piece := by
  induction cs generalizing piece with
  | nil =>
    simp only [splitOn_nil, List.mem_singleton] at h
    simp [h]
  | cons c cs ih =>
    by_cases hc : c = separator
    · subst hc
      rw [splitOn_separator_cons, List.mem_cons] at h
      rcases h with rfl | h
      · simp
      · exact ih h
    · obtain ⟨first, rest, hs⟩ := List.exists_cons_of_ne_nil (splitOn_ne_nil separator cs)
      rw [splitOn_cons_of_ne hc hs, List.mem_cons] at h
      rcases h with rfl | h
      · rw [List.mem_cons, not_or]
        exact ⟨Ne.symm hc, ih (hs ▸ List.mem_cons_self)⟩
      · exact ih (hs ▸ List.mem_cons_of_mem first h)

theorem mem_of_mem_splitOn {c : Char} {cs piece : List Char}
    (h : piece ∈ splitOn separator cs) (hc : c ∈ piece) : c ∈ cs := by
  induction cs generalizing piece with
  | nil =>
    simp only [splitOn_nil, List.mem_singleton] at h
    rw [h] at hc
    exact hc
  | cons d cs ih =>
    by_cases hd : d = separator
    · subst hd
      rw [splitOn_separator_cons, List.mem_cons] at h
      rcases h with rfl | h
      · cases hc
      · exact List.mem_cons_of_mem d (ih h hc)
    · obtain ⟨first, rest, hs⟩ := List.exists_cons_of_ne_nil (splitOn_ne_nil separator cs)
      rw [splitOn_cons_of_ne hd hs, List.mem_cons] at h
      rcases h with rfl | h
      · rcases List.mem_cons.mp hc with rfl | hc
        · exact List.mem_cons_self
        · exact List.mem_cons_of_mem d (ih (hs ▸ List.mem_cons_self) hc)
      · exact List.mem_cons_of_mem d (ih (hs ▸ List.mem_cons_of_mem first h) hc)

/-- A text ends in a word when it is something and then the word. -/
theorem endsWith_iff {word s : String} :
    endsWith word s = true ↔ ∃ front, s.toList = front ++ word.toList := by
  rw [endsWith, opensWith_iff]
  constructor
  · rintro ⟨rest, h⟩
    refine ⟨rest.reverse, ?_⟩
    have hr := congrArg List.reverse h
    simpa using hr
  · rintro ⟨front, h⟩
    exact ⟨front.reverse, by rw [h, List.reverse_append]⟩

theorem startsWith_iff {word s : String} :
    startsWith word s = true ↔ ∃ rest, s.toList = word.toList ++ rest := opensWith_iff

end Text

namespace Path

/-! ## Names -/

/-- A piece that names an entry of the directory it stands in. -/
structure IsName (name : String) : Prop where
  /-- A name is one piece. -/
  whole : '/' ∉ name.toList
  /-- A name moves on: it is neither empty nor a dot. -/
  moves : isIdle name = false
  /-- A name does not lead back. -/
  forward : name ≠ ".."

theorem isIdle_iff {piece : String} : isIdle piece = true ↔ piece = "" ∨ piece = "." := by
  simp [isIdle]

theorem IsName.ne_empty {name : String} (h : IsName name) : name ≠ "" := by
  rintro rfl
  exact absurd h.moves (by decide)

theorem IsName.ne_dot {name : String} (h : IsName name) : name ≠ "." := by
  rintro rfl
  exact absurd h.moves (by decide)

/-! ## Pieces -/

theorem pieces_ne_nil (path : String) : pieces path ≠ [] := by
  simp [pieces, Text.splitOn_ne_nil]

theorem pieces_of_isName {name : String} (h : IsName name) : pieces name = [name] := by
  simp [pieces, Text.splitOn_of_not_mem h.whole]

/-- The pieces of a path are those before a slash and those after it. -/
theorem pieces_slash (front back : String) :
    pieces (front ++ "/" ++ back) = pieces front ++ pieces back := by
  have hl : (front ++ "/" ++ back).toList = front.toList ++ '/' :: back.toList := by simp
  rw [pieces, hl, Text.splitOn_append_separator, List.map_append]
  rfl

theorem pieces_empty : pieces "" = [""] := rfl

/-- A base ends in an empty piece when it ends in a slash. -/
theorem exists_of_endsWith_slash {base : String} (h : Text.endsWith "/" base = true) :
    ∃ front, base = front ++ "/" := by
  obtain ⟨front, hf⟩ := Text.endsWith_iff.mp h
  refine ⟨String.ofList front, ?_⟩
  apply String.toList_inj.mp
  simpa using hf

/-- A name does not open with a slash. -/
theorem IsName.relative {name : String} (h : IsName name) : Text.startsWith "/" name = false := by
  rw [Bool.eq_false_iff]
  intro hs
  obtain ⟨rest, hr⟩ := Text.startsWith_iff.mp hs
  exact h.whole (by simp [hr])

/-- The pieces of what is joined stand behind those of the base; an empty piece at the end of the
base makes room for them. -/
theorem pieces_join_relative (base : String) {path : String}
    (h : Text.startsWith "/" path = false) :
    ∃ front, pieces (join base path) = front ++ pieces path ∧
      (pieces base = front ∨ pieces base = front ++ [""]) := by
  have hnot : ¬ Text.startsWith "/" path = true := by simp [h]
  by_cases he : base = ""
  · subst he
    refine ⟨[], ?_, Or.inr rfl⟩
    rw [join, if_neg hnot, if_pos (Or.inl rfl), String.empty_append]
    rfl
  · by_cases hb : Text.endsWith "/" base = true
    · obtain ⟨front, rfl⟩ := exists_of_endsWith_slash hb
      refine ⟨pieces front, ?_, Or.inr ?_⟩
      · rw [join, if_neg hnot, if_pos (Or.inr hb), pieces_slash]
      · have hp := pieces_slash front ""
        rw [String.append_empty] at hp
        exact hp
    · refine ⟨pieces base, ?_, Or.inl rfl⟩
      rw [join, if_neg hnot, if_neg (not_or.mpr ⟨he, hb⟩), pieces_slash]

/-- A joined name stands behind the pieces of the base. -/
theorem pieces_join (base : String) {name : String} (h : IsName name) :
    ∃ front, pieces (join base name) = front ++ [name] ∧
      (pieces base = front ∨ pieces base = front ++ [""]) := by
  obtain ⟨front, hp, hb⟩ := pieces_join_relative base h.relative
  rw [pieces_of_isName h] at hp
  exact ⟨front, hp, hb⟩

/-- A piece of a path holds no slash. -/
theorem slash_not_mem_of_mem_pieces {path piece : String} (h : piece ∈ pieces path) :
    '/' ∉ piece.toList := by
  rw [pieces, List.mem_map] at h
  obtain ⟨cs, hcs, rfl⟩ := h
  rw [String.toList_ofList]
  exact Text.not_mem_of_mem_splitOn hcs

/-- Pieces are read back from the path that has them. -/
theorem pieces_ofPieces {ps : List String} (hne : ps ≠ []) (hs : ∀ p ∈ ps, '/' ∉ p.toList) :
    pieces (ofPieces ps) = ps := by
  induction ps with
  | nil => exact absurd rfl hne
  | cons p ps ih =>
    have hp : pieces p = [p] := by
      simp [pieces, Text.splitOn_of_not_mem (hs p List.mem_cons_self)]
    cases ps with
    | nil => rw [ofPieces, Text.joinWith, String.intercalate_singleton, hp]
    | cons q ps =>
      have hrest := ih (by simp) (fun r hr => hs r (List.mem_cons_of_mem p hr))
      rw [ofPieces, Text.joinWith, String.intercalate_cons_cons, pieces_slash, hp]
      exact congrArg _ hrest

theorem dropIdle_isInitial (ps : List String) : dropIdle ps <+: ps := by
  cases ps with
  | nil => exact List.prefix_rfl
  | cons p ps =>
    rw [dropIdle]
    refine List.cons_prefix_cons.mpr ⟨rfl, ?_⟩
    have hsuffix := List.dropWhile_suffix isIdle (l := ps.reverse)
    have hrev := List.reverse_prefix.mpr hsuffix
    rwa [List.reverse_reverse] at hrev

/-- The path one step up is spelled by the first pieces of a path, unless it is the top. -/
theorem pieces_parent_or_top {path up : String} (h : parent? path = some up) :
    pieces up <+: pieces path ∨ up = "" ∨ up = "/" := by
  have hsub : dropIdle (dropIdle (pieces path)).dropLast <+: pieces path :=
    (dropIdle_isInitial _).trans ((List.dropLast_prefix _).trans (dropIdle_isInitial _))
  rw [parent?] at h
  by_cases hn : dropIdle (pieces path) = [""]
  · simp [hn] at h
  · simp only [hn, if_false, Option.some.injEq] at h
    by_cases hu : dropIdle (dropIdle (pieces path)).dropLast = [""]
    · rw [if_pos hu] at h
      exact Or.inr (Or.inr h.symm)
    · rw [if_neg hu] at h
      subst h
      by_cases he : dropIdle (dropIdle (pieces path)).dropLast = []
      · rw [he]
        exact Or.inr (Or.inl rfl)
      · rw [pieces_ofPieces he fun p hp => slash_not_mem_of_mem_pieces (hsub.subset hp)]
        exact Or.inl hsub

/-- The path one step up is spelled by the first pieces of a path, up to empty ones. -/
theorem pieces_parent {path up : String} (h : parent? path = some up) :
    pieces up <+: pieces path ∨ ∀ p ∈ pieces up, p = "" := by
  rcases pieces_parent_or_top h with hp | rfl | rfl
  · exact Or.inl hp
  · exact Or.inr (by decide)
  · exact Or.inr (by decide)

/-- A path that nothing is above has idle pieces only, unless it is empty. -/
theorem idle_of_parent_none {path : String} (h : parent? path = none) :
    ∀ p ∈ pieces path, isIdle p = true := by
  rw [parent?] at h
  by_cases hn : dropIdle (pieces path) = [""]
  · obtain ⟨p, ps, hps⟩ := List.exists_cons_of_ne_nil (pieces_ne_nil path)
    rw [hps, dropIdle] at hn
    simp only [List.cons.injEq, List.reverse_eq_nil_iff] at hn
    obtain ⟨rfl, hrest⟩ := hn
    have hsplit := List.takeWhile_append_dropWhile (p := isIdle) (l := ps.reverse)
    have hall := List.all_takeWhile (p := isIdle) (l := ps.reverse)
    rw [hrest, List.append_nil] at hsplit
    rw [hsplit] at hall
    rw [hps]
    intro q hq
    rcases List.mem_cons.mp hq with rfl | hq
    · rfl
    · exact List.all_eq_true.mp hall q (List.mem_reverse.mpr hq)
  · simp only [hn, if_false, reduceCtorEq] at h

/-- A joined path ends in its name and so in no slash. -/
theorem endsWith_slash_join (base : String) {name : String} (h : IsName name) :
    Text.endsWith "/" (join base name) = false := by
  rw [Bool.eq_false_iff]
  intro hs
  obtain ⟨front, hf⟩ := exists_of_endsWith_slash hs
  obtain ⟨ps, hp, -⟩ := pieces_join base h
  have hslash := pieces_slash front ""
  rw [String.append_empty, ← hf, hp] at hslash
  have hlast := congrArg List.getLast? hslash
  simp [pieces_empty] at hlast
  exact h.ne_empty hlast

/-- The pieces of a path before the empty ones at its end. -/
def named (path : String) : List String :=
  ((pieces path).reverse.dropWhile (· == "")).reverse

/-- Only empty pieces follow the named ones. -/
theorem pieces_eq_named (path : String) :
    ∃ count, pieces path = named path ++ List.replicate count "" := by
  refine ⟨((pieces path).reverse.takeWhile (· == "")).length, ?_⟩
  have hempty : ((pieces path).reverse.takeWhile (· == "")).reverse =
      List.replicate ((pieces path).reverse.takeWhile (· == "")).length "" := by
    refine List.eq_replicate_iff.mpr ⟨List.length_reverse, fun b hb => ?_⟩
    have hall := List.all_takeWhile (p := (· == "")) (l := (pieces path).reverse)
    simpa using List.all_eq_true.mp hall b (List.mem_reverse.mp hb)
  calc pieces path = ((pieces path).reverse.takeWhile (· == "") ++
        (pieces path).reverse.dropWhile (· == "")).reverse := by
        rw [List.takeWhile_append_dropWhile, List.reverse_reverse]
    _ = named path ++ ((pieces path).reverse.takeWhile (· == "")).reverse :=
        List.reverse_append
    _ = _ := by rw [hempty]

/-- The last named piece is not empty. -/
theorem named_getLast_ne {path last : String} (h : (named path).getLast? = some last) :
    last ≠ "" := by
  rw [named, List.getLast?_reverse] at h
  intro he
  have hw := List.head?_dropWhile_not (· == "") (pieces path).reverse
  rw [h] at hw
  simp [he] at hw

/-- The pieces up to the last one that is not empty are the named ones. -/
theorem named_of_pieces {path last : String} {front : List String} (count : Nat)
    (h : pieces path = front ++ [last] ++ List.replicate count "") (hl : last ≠ "") :
    named path = front ++ [last] := by
  have hn : (last == "") = false := by simpa using hl
  rw [named, h, List.reverse_append, List.reverse_replicate,
    List.dropWhile_append_of_pos (by simp), List.reverse_append, List.reverse_singleton,
    List.singleton_append, List.dropWhile_cons, hn]
  simp

/-- The named pieces of a joined path end in the name. -/
theorem named_join (base : String) {name : String} (h : IsName name) :
    ∃ front, named (join base name) = front ++ [name] ∧
      (pieces base = front ∨ pieces base = front ++ [""]) := by
  obtain ⟨front, hp, hb⟩ := pieces_join base h
  refine ⟨front, named_of_pieces 0 ?_ h.ne_empty, hb⟩
  rw [hp, List.replicate_zero, List.append_nil]

/-! ## Walking -/

/-- The location that one piece leads to. -/
def step (loc : List String) (piece : String) : List String :=
  if isIdle piece then loc else if piece = ".." then loc.dropLast else loc ++ [piece]

/-- The location that pieces lead to from a location. -/
def walk (loc : List String) (ps : List String) : List String := ps.foldl step loc

/-- The only location that a path can lead to. -/
def location (path : String) : List String := walk [] (pieces path)

/-- The locations that a path passes by spelling. -/
def OnPath (path : String) (loc : List String) : Prop :=
  ∃ ps, ps <+: pieces path ∧ loc = walk [] ps

theorem onPath_location (path : String) : OnPath path (location path) :=
  ⟨pieces path, List.prefix_rfl, rfl⟩

theorem step_isName {name : String} (h : IsName name) (loc : List String) :
    step loc name = loc ++ [name] := by
  rw [step, if_neg (by simp [h.moves]), if_neg h.forward]

theorem step_idle {piece : String} (h : isIdle piece = true) (loc : List String) :
    step loc piece = loc := by
  rw [step, if_pos h]

/-- A piece that does not move up leads on. -/
theorem prefix_step {piece : String} (h : piece ≠ "..") (loc : List String) :
    loc <+: step loc piece := by
  by_cases hi : isIdle piece = true
  · exact (step_idle hi loc).symm ▸ List.prefix_rfl
  · rw [step, if_neg hi, if_neg h]
    exact List.prefix_append loc [piece]

/-- Pieces that never move up lead on. -/
theorem prefix_walk {loc : List String} {ps : List String} (h : ".." ∉ ps) :
    loc <+: walk loc ps := by
  induction ps generalizing loc with
  | nil => exact List.prefix_rfl
  | cons p ps ih =>
    have hp : p ≠ ".." := fun he => h (he ▸ List.mem_cons_self)
    exact (prefix_step hp loc).trans (ih fun hm => h (List.mem_cons_of_mem p hm))

theorem walk_append (loc front back : List String) :
    walk loc (front ++ back) = walk (walk loc front) back := List.foldl_append

theorem walk_idle (loc : List String) {ps : List String} (h : ∀ p ∈ ps, isIdle p = true) :
    walk loc ps = loc := by
  induction ps with
  | nil => rfl
  | cons p ps ih =>
    rw [walk, List.foldl_cons, step_idle (h p List.mem_cons_self)]
    exact ih fun q hq => h q (List.mem_cons_of_mem p hq)

theorem walk_replicate_empty (loc : List String) (count : Nat) :
    walk loc (List.replicate count "") = loc := by
  induction count with
  | zero => rfl
  | succ count ih => exact ih

theorem location_eq_walk_named (path : String) : location path = walk [] (named path) := by
  obtain ⟨count, hc⟩ := pieces_eq_named path
  rw [location, hc, walk_append, walk_replicate_empty]

/-- The path one step up passes nothing that the path does not pass. -/
theorem onPath_parent {path up : String} (h : parent? path = some up) {loc : List String}
    (hl : OnPath up loc) : OnPath path loc := by
  obtain ⟨qs, hqs, rfl⟩ := hl
  rcases pieces_parent h with hp | hp
  · exact ⟨qs, hqs.trans hp, rfl⟩
  · refine ⟨[], List.nil_prefix, ?_⟩
    refine walk_idle [] fun q hq => ?_
    rw [hp q (hqs.subset hq)]
    rfl

/-- A path that never moves up passes only what is above its location. -/
theorem onPath_isInitial {path : String} (h : ".." ∉ pieces path) {loc : List String}
    (hl : OnPath path loc) : loc <+: location path := by
  obtain ⟨ps, ⟨rest, hps⟩, rfl⟩ := hl
  have hrest : ".." ∉ rest := fun hm => h (hps ▸ List.mem_append_right ps hm)
  rw [location, ← hps, walk_append]
  exact prefix_walk hrest

/-- The location of a relative path below a base is walked to from the base. -/
theorem location_join_relative (base : String) {path : String}
    (h : Text.startsWith "/" path = false) :
    location (join base path) = walk (location base) (pieces path) := by
  obtain ⟨front, hp, hb⟩ := pieces_join_relative base h
  have hbase : location base = walk [] front := by
    rcases hb with hb | hb
    · rw [location, hb]
    · rw [location, hb, walk_append]
      rfl
  rw [location, hp, walk_append, hbase]

/-- A joined name is an entry of the place of the base. -/
theorem location_join (base : String) {name : String} (h : IsName name) :
    location (join base name) = location base ++ [name] := by
  rw [location_join_relative base h.relative, pieces_of_isName h]
  exact step_isName h (location base)

/-- Entries of one directory are told apart by their names. -/
theorem entry_inj {top : List String} {name name' : String}
    (h : top ++ [name] = top ++ [name']) : name = name' := by
  simpa using h

theorem entry_ne {top : List String} {name name' : String} (h : name ≠ name') :
    top ++ [name] ≠ top ++ [name'] := fun he => h (entry_inj he)

/-- A joined name passes what the base passes, and its place. -/
theorem onPath_join (base : String) {name : String} (h : IsName name) {loc : List String}
    (hl : OnPath (join base name) loc) : OnPath base loc ∨ loc = location (join base name) := by
  obtain ⟨ps, hps, rfl⟩ := hl
  obtain ⟨front, hp, hb⟩ := pieces_join base h
  rw [hp, List.prefix_concat_iff] at hps
  rcases hps with hps | hps
  · right
    rw [location, hp, hps]
  · left
    refine ⟨ps, hps.trans ?_, rfl⟩
    rcases hb with hb | hb
    · exact hb ▸ List.prefix_rfl
    · exact hb ▸ List.prefix_append _ _

/-! ## Paths one step up -/

theorem ofPieces_cons_cons (p q : String) (ps : List String) :
    ofPieces (p :: q :: ps) = p ++ "/" ++ ofPieces (q :: ps) := by
  rw [ofPieces, Text.joinWith, String.intercalate_cons_cons]
  rfl

/-- A path is spelled by its pieces. -/
theorem ofPieces_pieces (path : String) : ofPieces (pieces path) = path := by
  have hsplit : ∀ cs : List Char,
      (ofPieces ((Text.splitOn '/' cs).map String.ofList)).toList = cs := by
    intro cs
    induction cs with
    | nil => rfl
    | cons c cs ih =>
      obtain ⟨piece, rest, hs⟩ := List.exists_cons_of_ne_nil (Text.splitOn_ne_nil '/' cs)
      rw [hs] at ih
      by_cases hc : c = '/'
      · subst hc
        rw [Text.splitOn_separator_cons, hs, List.map_cons, List.map_cons, ofPieces_cons_cons]
        rw [List.map_cons] at ih
        simp [ih]
      · rw [Text.splitOn_cons_of_ne hc hs]
        cases rest with
        | nil =>
          simp only [List.map_cons, List.map_nil, ofPieces, Text.joinWith,
            String.intercalate_singleton, String.toList_ofList] at ih ⊢
          rw [ih]
        | cons next rest =>
          simp only [List.map_cons, ofPieces_cons_cons, String.toList_append,
            String.toList_ofList] at ih ⊢
          rw [List.cons_append, List.cons_append, ih]
  exact String.toList_inj.mp (hsplit path.toList)

/-- A path whose last piece is empty, and not the only one, ends in a slash. -/
theorem endsWith_slash_of_pieces {path p : String} {front : List String}
    (h : pieces path = front ++ [p, ""]) : Text.endsWith "/" path = true := by
  have hspelled : ∀ front : List String, ∃ base, ofPieces (front ++ [p, ""]) = base ++ "/" := by
    intro front
    induction front with
    | nil => exact ⟨p, by rw [List.nil_append, ofPieces_cons_cons]; exact String.append_empty⟩
    | cons q front ih =>
      obtain ⟨base, hb⟩ := ih
      obtain ⟨r, rest, hr⟩ : ∃ r rest, front ++ [p, ""] = r :: rest := by
        cases front with
        | nil => exact ⟨p, [""], rfl⟩
        | cons r rest => exact ⟨r, rest ++ [p, ""], rfl⟩
      refine ⟨q ++ "/" ++ base, ?_⟩
      rw [List.cons_append, hr, ofPieces_cons_cons, ← hr, hb]
      simp only [String.append_assoc]
  obtain ⟨base, hb⟩ := hspelled front
  rw [← h, ofPieces_pieces] at hb
  exact Text.endsWith_iff.mpr ⟨base.toList, by rw [hb, String.toList_append]⟩

/-- Without a slash at the end the named pieces of a path are all of them. -/
theorem pieces_of_named {path name : String} {front : List String}
    (hn : named path = front ++ [name]) (hs : Text.endsWith "/" path = false) :
    pieces path = front ++ [name] := by
  obtain ⟨count, hcount⟩ := pieces_eq_named path
  rw [hn] at hcount
  cases count with
  | zero => simpa using hcount
  | succ count =>
    have hlast : ∃ p ps, pieces path = ps ++ [p, ""] := by
      cases count with
      | zero => exact ⟨name, front, by simpa using hcount⟩
      | succ count =>
        refine ⟨"", front ++ [name] ++ List.replicate count "", ?_⟩
        rw [hcount, List.replicate_succ', List.replicate_succ']
        simp
    obtain ⟨p, ps, hps⟩ := hlast
    rw [endsWith_slash_of_pieces hps] at hs
    cases hs

/-- The first pieces of a path spell what the path opens with. -/
theorem exists_ofPieces_append {ps qs : List String} (h : ps <+: qs) (hne : ps ≠ []) :
    ∃ rest, ofPieces qs = ofPieces ps ++ rest := by
  induction ps generalizing qs with
  | nil => exact absurd rfl hne
  | cons p ps ih =>
    obtain ⟨more, rfl⟩ := h
    cases ps with
    | nil =>
      cases more with
      | nil => exact ⟨"", by simp⟩
      | cons q more =>
        refine ⟨"/" ++ ofPieces (q :: more), ?_⟩
        rw [List.singleton_append, ofPieces_cons_cons, String.append_assoc]
        simp [ofPieces, Text.joinWith]
    | cons q ps =>
      obtain ⟨rest, hr⟩ := ih (⟨more, rfl⟩ : q :: ps <+: q :: ps ++ more) (by simp)
      refine ⟨rest, ?_⟩
      rw [List.cons_append, List.cons_append, ofPieces_cons_cons, ofPieces_cons_cons,
        ← List.cons_append, hr]
      simp only [String.append_assoc]

/-- Only idle pieces are dropped. -/
theorem exists_dropIdle (ps : List String) :
    ∃ idles, ps = dropIdle ps ++ idles ∧ ∀ p ∈ idles, isIdle p = true := by
  cases ps with
  | nil => exact ⟨[], rfl, fun p hp => by cases hp⟩
  | cons p ps =>
    refine ⟨(ps.reverse.takeWhile isIdle).reverse, ?_, fun q hq => ?_⟩
    · rw [dropIdle, List.cons_append, ← List.reverse_append, List.takeWhile_append_dropWhile,
        List.reverse_reverse]
    · exact List.all_eq_true.mp List.all_takeWhile q (List.mem_reverse.mp hq)

/-- A path that has no idle pieces behind its first one, at its end. -/
def Tight (path : String) : Prop := dropIdle (pieces path) = pieces path

theorem dropIdle_dropIdle (ps : List String) : dropIdle (dropIdle ps) = dropIdle ps := by
  cases ps with
  | nil => rfl
  | cons p ps =>
    have hdrop : (ps.reverse.takeWhile isIdle ++ ps.reverse.dropWhile isIdle).dropWhile isIdle =
        (ps.reverse.dropWhile isIdle).dropWhile isIdle :=
      List.dropWhile_append_of_pos fun q hq =>
        List.all_eq_true.mp (List.all_takeWhile (l := ps.reverse)) q hq
    rw [List.takeWhile_append_dropWhile] at hdrop
    simp only [dropIdle, List.reverse_reverse, ← hdrop]

theorem tight_of_pieces {path name : String} {front : List String}
    (hp : pieces path = front ++ [name]) (hn : isIdle name = false) : Tight path := by
  rw [Tight, hp]
  cases front with
  | nil => rfl
  | cons p front => simp [dropIdle, hn]

theorem tight_join (base : String) {name : String} (h : IsName name) : Tight (join base name) := by
  obtain ⟨front, hp, -⟩ := pieces_join base h
  exact tight_of_pieces hp h.moves

/-- The last piece of a tight path is not empty, unless it is the only one. -/
theorem Tight.last_ne {path last : String} {front : List String} (ht : Tight path)
    (hp : pieces path = front ++ [last]) (hne : pieces path ≠ [""]) : last ≠ "" := by
  rintro rfl
  cases front with
  | nil => exact hne hp
  | cons p front =>
    have hlength := congrArg List.length ht
    have hshort := (List.dropWhile_suffix isIdle (l := front.reverse)).length_le
    rw [hp] at hlength
    simp [dropIdle, isIdle] at hlength
    simp at hshort
    omega

/-- What is one step above a tight path is the top, or a tight path that is spelled by fewer
pieces; the pieces that are left out before the last one are idle. -/
theorem tight_parent {path up : String} (ht : Tight path) (h : parent? path = some up) :
    ((up = "" ∨ up = "/") ∧ ∀ p ∈ (named path).dropLast, isIdle p = true) ∨
      Tight up ∧ (∃ rest, rest ≠ [] ∧ pieces path = pieces up ++ rest) ∧
        ∃ idles, (named path).dropLast = pieces up ++ idles ∧ ∀ p ∈ idles, isIdle p = true := by
  rw [parent?, ht] at h
  by_cases hn : pieces path = [""]
  · simp [hn] at h
  simp only [hn, if_false, Option.some.injEq] at h
  obtain ⟨front, last, hp⟩ : ∃ front last, pieces path = front ++ [last] :=
    ⟨_, _, (List.dropLast_concat_getLast (pieces_ne_nil path)).symm⟩
  have hnamed : named path = front ++ [last] :=
    named_of_pieces 0 (by rw [hp, List.replicate_zero, List.append_nil]) (ht.last_ne hp hn)
  rw [hp, List.dropLast_concat] at h
  rw [hnamed, List.dropLast_concat, hp]
  obtain ⟨idles, hfront, hidles⟩ := exists_dropIdle front
  by_cases hroot : dropIdle front = [""]
  · rw [if_pos hroot] at h
    refine Or.inl ⟨Or.inr h.symm, fun p hp => ?_⟩
    rw [hfront, hroot] at hp
    rcases List.mem_append.mp hp with hp | hp
    · rw [List.mem_singleton.mp hp]
      rfl
    · exact hidles p hp
  rw [if_neg hroot] at h
  by_cases hempty : dropIdle front = []
  · rw [hempty] at h
    refine Or.inl ⟨Or.inl h.symm, fun p hp => hidles p ?_⟩
    rwa [hfront, hempty, List.nil_append] at hp
  have hup : pieces up = dropIdle front := by
    rw [← h]
    refine pieces_ofPieces hempty fun p hm => @slash_not_mem_of_mem_pieces path p ?_
    rw [hp]
    exact List.mem_append_left _ ((dropIdle_isInitial front).subset hm)
  refine Or.inr ⟨by rw [Tight, hup, dropIdle_dropIdle], ⟨idles ++ [last], by simp, ?_⟩,
    idles, by rw [hup]; exact hfront, hidles⟩
  rw [hup, ← List.append_assoc, ← hfront]

end Path

end NetTrial
