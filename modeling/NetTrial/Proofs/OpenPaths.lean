import Mathlib.Data.List.Induction
import NetTrial.Proofs.Invoking
import NetTrial.Proofs.Journals
/-!
# Paths that nothing blocks

In a sound state of the files whatever is there is in a directory. A path that no file and no
name is in the way of leads to a directory or to where nothing is, and its directory can be
made with those above it.
-/

namespace NetTrial

open NetTrial.Path Text

namespace Files

variable {fs fs' : Files} {path top : String} {loc spot : Location}

/-! ## Sound states -/

/-- Whatever is there is in a directory. -/
def Sound (fs : Files) : Prop :=
  ∀ loc name, fs.get? (loc ++ [name]) ≠ none → fs.isDirectoryAt loc = true

theorem Sound.dropLast (h : fs.Sound) (hd : fs.isDirectoryAt loc = true) :
    fs.isDirectoryAt loc.dropLast = true := by
  by_cases hn : loc = []
  · rw [hn]
    exact isDirectoryAt_nil fs
  · refine h loc.dropLast (loc.getLast hn) ?_
    rw [List.dropLast_concat_getLast hn]
    rw [isDirectoryAt_iff.mp hd]
    exact Option.some_ne_none _

/-- Only a directory has anything below it. -/
theorem Sound.above (h : fs.Sound) (hb : isBelow spot loc = true) (hl : fs.get? loc ≠ none) :
    fs.isDirectoryAt spot = true := by
  obtain ⟨⟨rest, rfl⟩, hne⟩ := isBelow_iff.mp hb
  clear hb
  induction rest using List.reverseRecOn with
  | nil => exact absurd (List.append_nil spot) hne
  | append_singleton rest name ih =>
    rw [← List.append_assoc] at hl
    have hd := h _ name hl
    cases rest with
    | nil => rwa [List.append_nil] at hd
    | cons next rest =>
      refine ih ?_ (by simp)
      rw [isDirectoryAt_iff.mp hd]
      exact Option.some_ne_none _

/-- What is changed at an entry of a directory leaves whatever is there in a directory. -/
theorem Sound.touches (h : fs.Sound) (ht : fs.Touches spot fs')
    (hd : fs.isDirectoryAt spot.dropLast = true) : fs'.Sound := by
  intro loc name hl
  rw [isDirectoryAt_iff]
  have hbefore : fs.get? loc = some .directory := by
    by_cases hs : loc ++ [name] = spot
    · rw [← hs, List.dropLast_concat] at hd
      exact isDirectoryAt_iff.mp hd
    · rw [ht.same _ hs] at hl
      exact isDirectoryAt_iff.mp (h loc name hl)
  by_cases hs : loc = spot
  · rw [hs]
    exact ht.directory (hs ▸ hbefore)
  · rw [ht.same loc hs, hbefore]

theorem touches_set (hne : spot ≠ []) (node : Node)
    (hd : fs.get? spot = some .directory → node = .directory) :
    fs.Touches spot (fs.set spot node) := by
  refine ⟨fun loc hl => ?_, fun h => ?_⟩
  · rw [get?_set fs hne, if_neg hl]
  · rw [get?_set fs hne, if_pos rfl, hd h]

theorem sound_empty : Files.empty.Sound := by
  intro loc name hl
  refine absurd ?_ hl
  rw [get?, if_neg (by simp)]
  rfl

/-- Something new is put in a directory. -/
theorem Sound.set (h : fs.Sound) (hn : fs.get? spot = none)
    (hd : fs.isDirectoryAt spot.dropLast = true) (node : Node) : (fs.set spot node).Sound := by
  refine h.touches (touches_set ?_ node fun hdir => ?_) hd
  · rintro rfl
    rw [get?_nil] at hn
    cases hn
  · rw [hn] at hdir
    cases hdir

theorem ensureDirectory_sound (h : fs.Sound) (hm : fs.ensureDirectory path = .ok fs') :
    fs'.Sound := by
  rw [ensureDirectory] at hm
  cases hmake : fs.makeDirectory path with
  | ok made =>
    rw [hmake] at hm
    cases hm
    obtain ⟨rfl, hne, hd, -⟩ := makeDirectory_ok hmake
    exact h.touches (touches_set hne _ fun _ => rfl) hd
  | error e =>
    rw [hmake] at hm
    by_cases he : e = .alreadyExists
    · subst he
      by_cases hd : fs.isDirectory path = true
      · simp only [hd, if_true] at hm
        cases hm
        exact h
      · simp only [hd] at hm
        cases hm
    · cases e <;> first | exact absurd rfl he | cases hm

/-- Directories are made in directories. -/
theorem makeDirectoriesFrom_sound (h : fs.Sound) (fuel : Nat) (path : String) :
    (makeDirectoriesFrom fuel fs path).2.Sound := by
  induction fuel generalizing path with
  | zero => exact h
  | succ fuel ih =>
    rcases makeDirectoriesFrom_succ fuel fs path with ⟨-, hm⟩ | ⟨-, up, -, hm⟩
    · rw [hm]
      exact h
    · rw [hm]
      cases he : fs.ensureDirectory path with
      | ok made => exact ensureDirectory_sound h he
      | error e =>
        by_cases hn : e = .notFound
        · subst hn
          have habove := ih up
          rcases hr : makeDirectoriesFrom fuel fs up with ⟨_ | _, grown⟩
          · rw [hr] at habove
            exact habove
          · rw [hr] at habove
            simp only
            cases hlast : grown.ensureDirectory path with
            | ok made => exact ensureDirectory_sound habove hlast
            | error e => exact habove
        · cases e <;> first | exact absurd rfl hn | exact h

/-- What is dropped with all that is below it leaves the rest in directories. -/
theorem Sound.drop (h : fs.Sound) {test : Location → Bool} (hclosed : ∀ loc name,
      test loc = true → fs.get? (loc ++ [name]) ≠ none → test (loc ++ [name]) = true) :
    (fs.drop test).Sound := by
  intro loc name hl
  rw [get?_drop fs test (by simp)] at hl
  by_cases ht : test (loc ++ [name]) = true
  · rw [if_pos ht] at hl
    exact absurd rfl hl
  rw [if_neg ht] at hl
  have hkept : test loc = false := Bool.eq_false_iff.mpr fun hs => ht (hclosed loc name hs hl)
  rw [isDirectoryAt_iff, fs.get?_drop_of_kept hkept]
  exact isDirectoryAt_iff.mp (h loc name hl)

/-! ## Paths that nothing blocks -/

/-- No name and no file is in the way of a path. -/
structure Unblocked (fs : Files) (path : String) : Prop where
  /-- Names can be spoken of. -/
  names : ∀ p ∈ pieces path, isIdle p = true ∨ p = ".." ∨ checkName p = .ok ()
  /-- What is passed is a directory, or not there. -/
  ways : ∀ loc, OnPath path loc → fs.get? loc = none ∨ fs.isDirectoryAt loc = true

theorem Unblocked.grows {spots : Location → Prop} (h : fs.Unblocked path)
    (hg : fs.Grows spots fs') : fs'.Unblocked path := by
  refine ⟨h.names, fun loc hl => ?_⟩
  rcases h.ways loc hl with hn | hd
  · rcases hg.fresh loc hn with hn' | ⟨-, hd'⟩
    · exact Or.inl hn'
    · exact Or.inr (isDirectoryAt_iff.mpr hd')
  · exact Or.inr (hg.isDirectoryAt hd)

theorem Unblocked.shrinks (h : fs.Unblocked path) (hs : fs.Shrinks fs') : fs'.Unblocked path := by
  refine ⟨h.names, fun loc hl => ?_⟩
  rcases hs loc with hn | he
  · exact Or.inl hn
  · rw [isDirectoryAt, he]
    exact h.ways loc hl

/-- What a path passes on its way is not blocked either. -/
theorem Unblocked.front {up : String} (h : fs.Unblocked path) (hup : pieces up <+: pieces path) :
    fs.Unblocked up :=
  ⟨fun p hp => h.names p (hup.subset hp),
    fun loc ⟨ps, hps, hl⟩ => h.ways loc ⟨ps, hps.trans hup, hl⟩⟩

theorem names_of_follow {ps : List String} {l : Location} (h : fs.follow loc ps = .ok l) :
    ∀ p ∈ ps, isIdle p = true ∨ p = ".." ∨ checkName p = .ok () := by
  induction ps generalizing loc with
  | nil =>
    intro p hp
    cases hp
  | cons piece ps ih =>
    obtain ⟨-, hrest, hpiece⟩ := follow_cons_eq_ok.mp h
    intro p hp
    rcases List.mem_cons.mp hp with rfl | hp
    · exact hpiece.imp_right fun h => h.imp_right And.left
    · exact ih hrest p hp

theorem Stands.unblocked (h : fs.Stands path) : fs.Unblocked path :=
  ⟨names_of_follow h.1, fun _ hl => Or.inr (h.onPath hl)⟩

/-- A piece leads to the directory that is where it leads. -/
theorem follow_singleton {piece : String} (hd : fs.isDirectoryAt loc = true)
    (hnext : fs.isDirectoryAt (step loc piece) = true)
    (hp : isIdle piece = true ∨ piece = ".." ∨ checkName piece = .ok ()) :
    fs.follow loc [piece] = .ok (step loc piece) := by
  refine follow_cons_eq_ok.mpr ⟨hd, rfl, ?_⟩
  by_cases hi : isIdle piece = true
  · exact Or.inl hi
  by_cases hb : piece = ".."
  · exact Or.inr (Or.inl hb)
  refine Or.inr (Or.inr ⟨(hp.resolve_left hi).resolve_left hb, ?_⟩)
  rw [step, if_neg hi, if_neg hb] at hnext
  rw [isDirectoryAt_iff.mp hnext]
  rfl

/-- Neither an idle piece nor one that leads back leads to where nothing is. -/
theorem name_of_step_absent {piece : String} (hs : fs.Sound) (hd : fs.isDirectoryAt loc = true)
    (hp : isIdle piece = true ∨ piece = ".." ∨ checkName piece = .ok ())
    (hnone : fs.get? (step loc piece) = none) :
    isIdle piece = false ∧ piece ≠ ".." ∧ checkName piece = .ok () ∧
      fs.get? (loc ++ [piece]) = none := by
  have hidle : ¬ isIdle piece = true := by
    intro hi
    rw [step_idle hi, isDirectoryAt_iff.mp hd] at hnone
    cases hnone
  have hback : piece ≠ ".." := by
    intro hb
    rw [step, if_neg hidle, if_pos hb, isDirectoryAt_iff.mp (hs.dropLast hd)] at hnone
    cases hnone
  rw [step, if_neg hidle, if_neg hback] at hnone
  exact ⟨Bool.eq_false_iff.mpr hidle, hback, (hp.resolve_left hidle).resolve_left hback, hnone⟩

/-- Pieces that nothing blocks lead to a directory, or to where nothing is. -/
theorem follow_unblocked (hs : fs.Sound) (h : fs.Unblocked path) {ps : List String}
    (hp : ps <+: pieces path) :
    (fs.follow [] ps = .ok (walk [] ps) ∧ fs.isDirectoryAt (walk [] ps) = true) ∨
      fs.follow [] ps = .error .notFound := by
  induction ps using List.reverseRecOn with
  | nil => exact Or.inl ⟨rfl, isDirectoryAt_nil fs⟩
  | append_singleton ps piece ih =>
    have hfront : ps <+: pieces path := (List.prefix_append ps [piece]).trans hp
    rw [follow_append]
    rcases ih hfront with ⟨hf, hd⟩ | hn
    · have hnext : walk [] (ps ++ [piece]) = step (walk [] ps) piece := by
        rw [walk_append]
        rfl
      have hpiece := h.names piece (hp.subset (by simp))
      rw [hf, hnext]
      change (fs.follow (walk [] ps) [piece] = _ ∧ _) ∨ fs.follow (walk [] ps) [piece] = _
      rcases h.ways _ ⟨ps ++ [piece], hp, hnext.symm⟩ with hnone | hdir
      · right
        obtain ⟨hidle, hback, hname, hgone⟩ := name_of_step_absent hs hd hpiece hnone
        simp only [follow, hd, if_true, hidle, if_neg hback, hname, bind, Except.bind, hgone,
          Option.isSome_none, Bool.false_eq_true, if_false]
      · exact Or.inl ⟨follow_singleton hd hdir hpiece, hdir⟩
    · rw [hn]
      exact Or.inr rfl

theorem Unblocked.stands_or_absent (hs : fs.Sound) (h : fs.Unblocked path) :
    fs.Stands path ∨ fs.follow [] (pieces path) = .error .notFound :=
  follow_unblocked hs h List.prefix_rfl

/-! ## Making directories where nothing blocks -/

theorem Stands.isDirectory (h : fs.Stands path) (hc : checkPath path = .ok ()) :
    fs.isDirectory path = true := by
  rw [Files.isDirectory, (stands_iff_locate hc).mp h]

theorem Stands.ensureDirectory (h : fs.Stands path) (hc : checkPath path = .ok ()) :
    fs.ensureDirectory path = .ok fs := by
  rw [Files.ensureDirectory, h.makeDirectory hc]
  simp only [h.isDirectory hc, if_true]

/-- There is no entry to work at where what a path passes before it is not there. -/
theorem target_absent (hc : checkPath path = .ok ())
    (hn : fs.follow [] (named path).dropLast = .error .notFound) :
    fs.target path = .error .notFound := by
  cases hl : (named path).getLast? with
  | none =>
    rw [List.getLast?_eq_none_iff.mp hl] at hn
    cases hn
  | some last =>
    obtain ⟨front, hfront⟩ := List.getLast?_eq_some_iff.mp hl
    rw [hfront, List.dropLast_concat] at hn
    rw [target_of_named hc hfront, hn]
    rfl

theorem ensureDirectory_absent (hc : checkPath path = .ok ())
    (hn : fs.follow [] (named path).dropLast = .error .notFound) :
    fs.ensureDirectory path = .error .notFound := by
  rw [ensureDirectory, makeDirectory, target_absent hc hn]
  rfl

/-- A directory is ensured once what its path passes before it is there. -/
theorem ensureDirectory_unblocked (hs : fs.Sound) (h : fs.Unblocked path)
    (hc : checkPath path = .ok ())
    (hfound : fs.follow [] (named path).dropLast ≠ .error .notFound) :
    ∃ fs', fs.ensureDirectory path = .ok fs' := by
  obtain ⟨count, hpieces⟩ := pieces_eq_named path
  have hinit : (named path).dropLast <+: pieces path := by
    rw [hpieces]
    exact (List.dropLast_prefix _).trans (List.prefix_append _ _)
  cases hl : (named path).getLast? with
  | none =>
    have hnil : named path = [] := List.getLast?_eq_none_iff.mp hl
    have hstands : fs.Stands path := by
      refine stands_of_idle fs fun p hp => ?_
      rw [hpieces, hnil, List.nil_append] at hp
      rw [List.eq_of_mem_replicate hp]
      rfl
    exact ⟨fs, hstands.ensureDirectory hc⟩
  | some last =>
    obtain ⟨front, hfront⟩ := List.getLast?_eq_some_iff.mp hl
    rw [hfront, List.dropLast_concat] at hinit hfound
    have htarget : fs.target path = _ := target_of_named hc hfront
    obtain ⟨hf, hd⟩ := (follow_unblocked hs h hinit).resolve_right hfound
    by_cases hstands : fs.Stands path
    · exact ⟨fs, hstands.ensureDirectory hc⟩
    have hlocation : location path = step (walk [] front) last := by
      rw [location_eq_walk_named, hfront, walk_append]
      rfl
    have hpiece := h.names last (by rw [hpieces, hfront]; simp)
    -- the directory is not there, for a path that leads on to it would stand
    have hnone : fs.get? (step (walk [] front) last) = none := by
      rw [← hlocation]
      refine (h.ways _ (onPath_location path)).resolve_right fun hdir => hstands ⟨?_, hdir⟩
      rw [hlocation] at hdir
      rw [hpieces, hfront, follow_append, follow_append, hf]
      change ((fs.follow (walk [] front) [last]).bind fun l => _) = _
      rw [follow_singleton hd hdir hpiece, hlocation]
      exact follow_replicate_empty hdir count
    obtain ⟨hidle, hback, hname, hgone⟩ := name_of_step_absent hs hd hpiece hnone
    have hdot : last ≠ "." := by
      rintro rfl
      exact absurd hidle (by decide)
    rw [ensureDirectory, makeDirectory, htarget, hf]
    simp only [Except.bind, hd, if_true, hdot, hback, or_self, if_false, hname, bind, hgone,
      Option.isSome_none, Bool.false_eq_true]
    exact ⟨_, rfl⟩

theorem checkPath_parent {up : String} (hc : checkPath path = .ok ())
    (hp : ∃ rest, pieces path = pieces up ++ rest) (hne : up ≠ "") : checkPath up = .ok () := by
  obtain ⟨rest, hrest⟩ := hp
  obtain ⟨tail, htail⟩ := exists_ofPieces_append ⟨rest, hrest.symm⟩ (pieces_ne_nil up)
  rw [ofPieces_pieces, ofPieces_pieces] at htail
  exact checkPath_of_append (htail ▸ hc) hne

/-- Where nothing blocks a tight path, its directory can be made. -/
theorem makeDirectoriesFrom_unblocked {fuel : Nat} (hs : fs.Sound) (h : fs.Unblocked path)
    (hc : path ≠ "" → checkPath path = .ok ()) (ht : Tight path)
    (hfuel : (pieces path).length ≤ fuel) :
    (makeDirectoriesFrom fuel fs path).1 = .ok () ∧
      (makeDirectoriesFrom fuel fs path).2.Stands path := by
  induction fuel generalizing path with
  | zero =>
    have := List.length_pos_iff.mpr (pieces_ne_nil path)
    omega
  | succ fuel ih =>
    rcases makeDirectoriesFrom_succ fuel fs path with ⟨hend, hm⟩ | ⟨hpath, up, hup, hm⟩
    · rw [hm]
      refine ⟨rfl, ?_⟩
      rcases hend with rfl | hend
      · exact Area.stands_empty fs
      · exact stands_of_idle fs (idle_of_parent_none hend)
    replace hc := hc hpath
    by_cases hfront : fs.follow [] (named path).dropLast = .error .notFound
    · rw [hm, ensureDirectory_absent hc hfront]
      rcases tight_parent ht hup with
        ⟨-, hidle⟩ | ⟨htight, ⟨rest, hne, hrest⟩, idles, hinit, hidles⟩
      · rw [follow_idle (isDirectoryAt_nil fs) hidle] at hfront
        cases hfront
      have hshort : (pieces up).length ≤ fuel := by
        have hlength := congrArg List.length hrest
        rw [List.length_append] at hlength
        have := List.length_pos_iff.mpr hne
        omega
      have hway : fs.Unblocked up := h.front (hrest ▸ List.prefix_append _ _)
      have hmade := ih hway (checkPath_parent hc ⟨rest, hrest⟩) htight hshort
      have hsound := makeDirectoriesFrom_sound hs fuel up
      have hgrows := makeDirectoriesFrom_grows fuel fs up
      rcases hr : makeDirectoriesFrom fuel fs up with ⟨r, grown⟩
      rw [hr] at hmade hsound hgrows
      obtain ⟨rfl, hstands⟩ := hmade
      have hthere : grown.follow [] (named path).dropLast ≠ .error .notFound := by
        rw [hinit, follow_append, hstands.1]
        change grown.follow (location up) idles ≠ _
        rw [follow_idle hstands.2 hidles]
        simp
      obtain ⟨made, hmade⟩ := ensureDirectory_unblocked hsound (h.grows hgrows) hc hthere
      simp only [hmade]
      exact ⟨trivial, (ensureDirectory_ok hmade).2⟩
    · obtain ⟨made, hmade⟩ := ensureDirectory_unblocked hs h hc hfront
      rw [hm, hmade]
      exact ⟨rfl, (ensureDirectory_ok hmade).2⟩

end Files

end NetTrial
