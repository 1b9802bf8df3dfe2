import NetTrial.Proofs.OpenPaths
/-!
# Starting from nothing

Clearing the directory of a case leaves nothing of what was there, whether that was a directory,
a file or nothing at all: what is at a place afterwards is told by the path of the directory
and, outside of it, by what was at the place before.
-/

namespace NetTrial

open NetTrial.Path Text

namespace Files

variable {fs fs' : Files} {path top : String} {loc spot : Location}

/-! ## A place to work in -/

/-- There is a directory to work below, or nothing is where it will be made. -/
structure Ready (fs : Files) (top : String) : Prop where
  /-- Whatever is there is in a directory. -/
  sound : fs.Sound
  /-- Nothing blocks the path. -/
  unblocked : fs.Unblocked top
  /-- The directory stands, or its place is empty. -/
  there : fs.Stands top ∨ ∀ loc, isBelow (location top) loc = true → fs.get? loc = none

theorem ready_of_stands (hs : fs.Sound) (h : fs.Stands top) : fs.Ready top :=
  ⟨hs, h.unblocked, Or.inl h⟩

variable {name : String}

/-- In a standing directory an entry is made unless its spelling is refused or a file is there. -/
theorem Stands.ensureDirectory_join (h : fs.Stands top) (hn : IsName name) :
    fs.ensureDirectory (join top name) = (admits top name).bind fun _ =>
      match fs.get? (location top ++ [name]) with
      | none => .ok (fs.set (location top ++ [name]) .directory)
      | some .directory => .ok fs
      | some (.file _) => .error .alreadyExists := by
  rw [Files.ensureDirectory, Files.makeDirectory, h.target_join hn, Files.isDirectory,
    h.locate_join hn]
  cases ha : admits top name with
  | error e =>
    have he : e ≠ .alreadyExists := by
      rintro rfl
      rw [admits, checkPath, checkName] at ha
      revert ha
      simp only [bind, Except.bind]
      split_ifs <;> simp
    cases e <;> first | exact absurd rfl he | rfl
  | ok _ =>
    rcases hg : fs.get? (location top ++ [name]) with _ | _ | _
    · simp only [Except.bind, bind, hg, Option.isSome_none, Bool.false_eq_true, if_false]
      rfl
    · simp [Except.bind, bind, hg]
    · simp [Except.bind, bind, hg]

/-- What leads to the last piece of a joined path leads to what it is joined to. -/
theorem stands_of_follow_front {front : List String} {l : Location}
    (hb : pieces top = front ∨ pieces top = front ++ [""]) (hf : fs.follow [] front = .ok l)
    (hd : fs.isDirectoryAt l = true) : fs.Stands top := by
  have hfollow : fs.follow [] (pieces top) = .ok l := by
    rcases hb with hb | hb
    · rw [hb, hf]
    · rw [hb, follow_append, hf]
      exact follow_replicate_empty hd 1
  have hl : l = location top := follow_eq_walk hfollow
  rw [hl] at hfollow hd
  exact ⟨hfollow, hd⟩

/-- The path to an entry leads nowhere before it where the directory is not there. -/
theorem follow_front_absent (hs : fs.Sound) (h : fs.Unblocked top) (hstands : ¬ fs.Stands top)
    (hn : IsName name) : fs.follow [] (named (join top name)).dropLast = .error .notFound := by
  obtain ⟨front, hnamed, hb⟩ := named_join top hn
  rw [hnamed, List.dropLast_concat]
  refine (follow_unblocked hs h ?_).resolve_left fun hf =>
    hstands (stands_of_follow_front hb hf.1 hf.2)
  rcases hb with hb | hb
  · exact hb ▸ List.prefix_rfl
  · exact hb ▸ List.prefix_append _ _

theorem Stands.ensureDirectory_join_ne (h : fs.Stands top) (hn : IsName name) :
    fs.ensureDirectory (join top name) ≠ .error .notFound := by
  rw [h.ensureDirectory_join hn]
  cases ha : admits top name with
  | error e =>
    intro he
    cases he
    exact Area.admits_ne_notFound hn ha
  | ok _ => rcases hg : fs.get? (location top ++ [name]) with _ | _ | _ <;> simp [Except.bind]

/-- Where nothing blocks a directory, it stands once what is above an entry of it is made. -/
theorem makeDirectoriesFrom_above (hs : fs.Sound) (h : fs.Unblocked top) (hn : IsName name)
    (hc : checkPath (join top name) = .ok ()) (hstands : ¬ fs.Stands top) {up : String}
    (hup : parent? (join top name) = some up) :
    ∃ grown, makeDirectoriesFrom (pieces (join top name)).length fs up = (.ok (), grown) ∧
      fs.Grows (OnPath top) grown ∧ grown.Sound ∧ grown.Stands top := by
  obtain ⟨front, hnamed, hb⟩ := named_join top hn
  have hinit : front <+: pieces top := by
    rcases hb with hb | hb
    · exact hb ▸ List.prefix_rfl
    · exact hb ▸ List.prefix_append _ _
  rcases tight_parent (tight_join top hn) hup with
    ⟨-, hidle⟩ | ⟨htight, ⟨rest, hne, hrest⟩, idles, hpieces, hidles⟩
  · have hfront := follow_front_absent hs h hstands hn
    rw [follow_idle (isDirectoryAt_nil fs) hidle] at hfront
    cases hfront
  rw [hnamed, List.dropLast_concat] at hpieces
  have hway : pieces up <+: pieces top := by
    rw [hpieces] at hinit
    exact (List.prefix_append _ _).trans hinit
  have hshort : (pieces up).length ≤ (pieces (join top name)).length := by
    rw [hrest, List.length_append]
    exact Nat.le_add_right _ _
  obtain ⟨hmade, hreached⟩ := makeDirectoriesFrom_unblocked hs (h.front hway)
    (checkPath_parent hc ⟨rest, hrest⟩) htight hshort
  refine ⟨(makeDirectoriesFrom (pieces (join top name)).length fs up).2, Prod.ext hmade rfl,
    (makeDirectoriesFrom_grows _ fs up).mono fun loc ⟨ps, hps, hl⟩ => ⟨ps, hps.trans hway, hl⟩,
    makeDirectoriesFrom_sound hs _ up, ?_⟩
  refine stands_of_follow_front hb (l := location up) ?_ hreached.2
  rw [hpieces, follow_append, hreached.1]
  exact follow_idle hreached.2 hidles

/-- An entry of a place to work in is made after the directory that it is in. -/
theorem makeDirectories_join (hs : fs.Sound) (h : fs.Unblocked top) (hn : IsName name)
    (hc : checkPath (join top name) = .ok ()) :
    ∃ grown, fs.Grows (OnPath top) grown ∧ grown.Sound ∧ grown.Stands top ∧
      (fs.Stands top → grown = fs) ∧
      fs.makeDirectories (join top name) = match grown.ensureDirectory (join top name) with
        | .ok made => (.ok (), made)
        | .error e => (.error e, grown) := by
  rcases makeDirectoriesFrom_succ (pieces (join top name)).length fs (join top name) with
    ⟨hend, -⟩ | ⟨-, up, hup, hm⟩
  · obtain ⟨front, hp, -⟩ := pieces_join top hn
    rcases hend with hend | hend
    · exact absurd hend (checkPath_eq_ok.mp hc).2.1
    · have hidle := idle_of_parent_none hend name (by rw [hp]; simp)
      rw [hn.moves] at hidle
      cases hidle
  rw [makeDirectories, hm]
  by_cases hstands : fs.Stands top
  · refine ⟨fs, Grows.refl _ _, hs, hstands, fun _ => rfl, ?_⟩
    have hnot := hstands.ensureDirectory_join_ne hn
    cases he : fs.ensureDirectory (join top name) with
    | ok made => rfl
    | error e =>
      rw [he] at hnot
      cases e <;> first | exact absurd rfl hnot | rfl
  · obtain ⟨grown, hmade, hgrows, hsound, hgrown⟩ :=
      makeDirectoriesFrom_above hs h hn hc hstands hup
    refine ⟨grown, hgrows, hsound, hgrown, fun hst => absurd hst hstands, ?_⟩
    rw [ensureDirectory_absent hc (follow_front_absent hs h hstands hn)]
    cases he : grown.ensureDirectory (join top name) with
    | ok made => simp only [hmade, he]
    | error e => simp only [hmade, he]

/-! ## What is left of a place -/

/-- What was at a place and below it is gone, but for a directory there, and nothing else is. -/
structure Swept (spot : Location) (fs fs' : Files) : Prop where
  /-- Whatever is there is in a directory. -/
  sound : fs'.Sound
  /-- Nothing is new. -/
  shrinks : fs.Shrinks fs'
  /-- No file is left at the place. -/
  here : fs'.get? spot = none ∨ fs'.get? spot = some .directory
  /-- Nothing is left below. -/
  below : ∀ loc, isBelow spot loc = true → fs'.get? loc = none
  /-- All else is as it was. -/
  elsewhere : ∀ loc, ¬ spot <+: loc → fs'.get? loc = fs.get? loc

/-- Only directories of a path are at its place and below, and elsewhere nothing is changed but
that directories of the path are made. -/
structure Emptied (path : String) (fs fs' : Files) : Prop where
  /-- Whatever is there is in a directory. -/
  sound : fs'.Sound
  /-- The directory stands. -/
  stands : fs'.Stands path
  /-- Nothing but the path is in it. -/
  within : ∀ loc, ¬ OnPath path loc → location path <+: loc → fs'.get? loc = none
  /-- All else is as it was. -/
  elsewhere : ∀ loc, ¬ OnPath path loc → ¬ location path <+: loc → fs'.get? loc = fs.get? loc

theorem Sound.below (h : fs.Sound) (hd : fs.get? spot ≠ some .directory)
    (hb : isBelow spot loc = true) : fs.get? loc = none := by
  by_contra hl
  exact hd (isDirectoryAt_iff.mp (h.above hb hl))

theorem swept_refl (h : fs.Sound) (hn : fs.get? spot = none) : fs.Swept spot fs :=
  ⟨h, Shrinks.refl fs, Or.inl hn, fun _ hb => h.below (by simp [hn]) hb, fun _ _ => rfl⟩

/-- What has nothing below it can go. -/
theorem swept_drop (hs : fs'.Sound) (hshrinks : fs.Shrinks fs')
    (hbelow : ∀ loc, isBelow spot loc = true → fs'.get? loc = none)
    (helsewhere : ∀ loc, ¬ spot <+: loc → fs'.get? loc = fs.get? loc) (hne : spot ≠ []) :
    fs.Swept spot (fs'.drop (· == spot)) := by
  refine ⟨hs.drop fun loc name hl hkept => ?_, hshrinks.trans (shrinks_drop fs' _), Or.inl ?_,
    fun loc hb => ?_, fun loc hl => ?_⟩
  · have hloc : loc = spot := by simpa using hl
    rw [hloc] at hkept
    have hb : isBelow spot (spot ++ [name]) = true :=
      isBelow_iff.mpr ⟨List.prefix_append _ _, by simp⟩
    exact absurd (hbelow _ hb) hkept
  · rw [get?_drop fs' _ hne, if_pos (by simp)]
  · rw [get?_drop_of_ne fs' (isBelow_iff.mp hb).2, hbelow loc hb]
  · have hne : loc ≠ spot := fun he => hl (he ▸ List.prefix_rfl)
    rw [get?_drop_of_ne fs' hne, helsewhere loc hl]

/-- All below a directory can go. -/
theorem swept_below (h : fs.Sound) (hd : fs.get? spot = some .directory) :
    fs.Swept spot (fs.drop (isBelow spot)) := by
  refine ⟨h.drop fun loc name hl _ => ?_, shrinks_drop fs _, Or.inr ?_, fun loc hb => ?_,
    fun loc hl => fs.get?_drop_of_kept ?_⟩
  · obtain ⟨hp, hne⟩ := isBelow_iff.mp hl
    refine isBelow_iff.mpr ⟨hp.trans (List.prefix_append _ _), fun he => ?_⟩
    have hlength := hp.length_le
    rw [← he, List.length_append, List.length_singleton] at hlength
    omega
  · rw [fs.get?_drop_of_kept (by simp [isBelow]), hd]
  · rw [get?_drop fs _ (ne_nil_of_isBelow hb), if_pos hb]
  · rw [Bool.eq_false_iff]
    exact fun hb => hl (isBelow_iff.mp hb).1

/-- A directory that is asked to go is swept. -/
theorem removeTree_sweeps (hready : fs.Ready top) (hn : IsName name)
    (ha : admits top name = .ok ()) (hstands : fs.Stands top)
    (hd : fs.get? (location (join top name)) = some .directory) :
    ∃ swept, fs.removeTree (join top name) = (.ok (), swept) ∧
      fs.Swept (location (join top name)) swept := by
  have hspot := location_join top hn
  have hemptied := swept_below hready.sound hd
  have hlocate : fs.locate (join top name) = .ok (location (join top name), .directory) := by
    rw [hstands.locate_join hn, ha, ← hspot]
    simp [Except.bind, hd]
  rw [removeTree, hlocate]
  simp only
  by_cases hkept : (fs.drop (isBelow (location (join top name)))).Stands top
  · rw [hkept.target_join hn, ha]
    exact ⟨_, rfl, swept_drop hemptied.sound hemptied.shrinks hemptied.below hemptied.elsewhere
      (by simp [hspot])⟩
  · -- the path to the directory led through what was in it
    have hfront := follow_front_absent hemptied.sound
      (hready.unblocked.shrinks hemptied.shrinks) hkept hn
    rw [target_absent (admits_eq_ok.mp ha).1 hfront]
    exact ⟨_, rfl, hemptied⟩

/-- The directory of a swept entry is made empty. -/
theorem Swept.emptied (h : fs.Swept (location (join top name)) fs') (hway : fs.Unblocked top)
    (hn : IsName name) (ha : admits top name = .ok ()) :
    ∃ made, fs'.makeDirectories (join top name) = (.ok (), made) ∧
      fs.Emptied (join top name) made := by
  obtain ⟨grown, hgrows, hsound, hstands, -, hmake⟩ := makeDirectories_join h.sound
    (hway.shrinks h.shrinks) hn (admits_eq_ok.mp ha).1
  have hspot : grown.get? (location top ++ [name]) = none ∨
      grown.get? (location top ++ [name]) = some .directory := by
    rw [← location_join top hn]
    rcases h.here with hnone | hd
    · exact (hgrows.fresh _ hnone).imp_right And.right
    · exact Or.inr (by rw [hgrows.kept _ (by simp [hd]), hd])
  obtain ⟨made, hmade⟩ : ∃ made, grown.ensureDirectory (join top name) = .ok made := by
    rw [hstands.ensureDirectory_join hn, ha]
    rcases hspot with hnone | hd
    · exact ⟨grown.set (location top ++ [name]) .directory, by simp [Except.bind, hnone]⟩
    · exact ⟨grown, by simp [Except.bind, hd]⟩
  rw [hmade] at hmake
  have hall := makeDirectories_grows fs' (join top name)
  rw [hmake] at hall
  refine ⟨made, hmake, ensureDirectory_sound hsound hmade, (ensureDirectory_ok hmade).2,
    fun loc hoff hin => ?_, fun loc hoff hout => ?_⟩
  · rw [hall.elsewhere hoff]
    refine h.below loc (isBelow_iff.mpr ⟨hin, fun he => hoff ?_⟩)
    exact he ▸ onPath_location _
  · rw [hall.elsewhere hoff, h.elsewhere loc hout]

end Files

namespace Area

variable {a : Area} {fs fs' : Files} {top id : String}

/-- The directory of a case is swept before it is made again. -/
theorem reset_sweeps (hready : fs.Ready top) (hn : IsName id)
    (ha : Files.admits top id = .ok ()) (hroot : a.root = join top id) :
    ∃ swept, fs.Swept (location (join top id)) swept ∧ a.reset.run fs =
      ((swept.makeDirectories (join top id)).1.mapError (.os (join top id)),
        (swept.makeDirectories (join top id)).2) := by
  have hc := (Files.admits_eq_ok.mp ha).1
  have hspot := location_join top hn
  have hne : location (join top id) ≠ [] := by simp [hspot]
  rw [reset, Action.run_get_bind, hroot]
  by_cases hstands : fs.Stands top
  · rw [hstands.locate_join hn, ha, ← hspot]
    rcases hg : fs.get? (location (join top id)) with _ | bytes | _
    · exact ⟨fs, Files.swept_refl hready.sound hg, Action.run_attempt _ _ fs⟩
    · have hremove : fs.removeFile (join top id) =
          .ok (fs.drop (· == location (join top id))) := by
        rw [hstands.removeFile_join hn, ha, ← hspot]
        simp [Except.bind, hg]
      refine ⟨_, Files.swept_drop hready.sound (Files.Shrinks.refl fs)
        (fun _ hb => hready.sound.below (by simp [hg]) hb) (fun _ _ => rfl) hne, ?_⟩
      change (Action.edit (join top id) _ >>= fun _ => Action.attempt (join top id) _).run fs = _
      rw [Action.run_bind, Action.run_edit, hremove]
      exact Action.run_attempt _ _ _
    · obtain ⟨swept, hremove, hswept⟩ := Files.removeTree_sweeps hready hn ha hstands hg
      refine ⟨swept, hswept, ?_⟩
      change (Action.attempt (join top id) _ >>= fun _ => Action.attempt (join top id) _).run fs = _
      rw [Action.run_bind, Action.run_attempt, hremove]
      exact Action.run_attempt _ _ _
  · have hlocate : fs.locate (join top id) = .error .notFound := by
      rw [Files.locate, hc, Files.follow_join fs top hn,
        (hready.unblocked.stands_or_absent hready.sound).resolve_left hstands]
      rfl
    have hbelow : Files.isBelow (location top) (location (join top id)) = true :=
      Files.isBelow_iff.mpr ⟨hspot ▸ List.prefix_append _ _, by simp [hspot]⟩
    rw [hlocate]
    refine ⟨fs, Files.swept_refl hready.sound ?_, Action.run_attempt _ _ fs⟩
    exact hready.there.resolve_left hstands _ hbelow

/-- Clearing the directory of a case leaves it empty. -/
theorem reset_emptied (hready : fs.Ready top) (hn : IsName id)
    (ha : Files.admits top id = .ok ()) (hroot : a.root = join top id) :
    ∃ made, a.reset.run fs = (.ok (), made) ∧ fs.Emptied (join top id) made := by
  obtain ⟨swept, hswept, hrun⟩ := reset_sweeps hready hn ha hroot
  obtain ⟨made, hmake, hemptied⟩ := hswept.emptied hready.unblocked hn ha
  refine ⟨made, ?_, hemptied⟩
  rw [hrun, hmake]
  rfl

/-- A directory whose name is refused is not cleared, though the one that it is in may be made. -/
theorem reset_refused (hready : fs.Ready top) (hn : IsName id) {e : OsError}
    (ha : Files.admits top id = .error e) (hroot : a.root = join top id) :
    ∃ left, a.reset.run fs = (.error (.os (join top id) e), left) ∧ left.Ready top ∧
      fs.Grows (OnPath top) left ∧ (fs.Stands top → left = fs) := by
  have he : e ≠ .notFound := by
    rintro rfl
    exact admits_ne_notFound hn ha
  have hrefuse : fs.locate (join top id) = .error e →
      a.reset.run fs = (.error (.os (join top id) e), fs) := by
    intro hlocate
    rw [reset, Action.run_get_bind, hroot, hlocate]
    cases e <;> first | exact absurd rfl he | rfl
  by_cases hstands : fs.Stands top
  · refine ⟨fs, hrefuse ?_, hready, Files.Grows.refl _ _, fun _ => rfl⟩
    rw [hstands.locate_join hn, ha]
    rfl
  cases hc : Files.checkPath (join top id) with
  | error e' =>
    have he' : e' = e := by
      rw [Files.admits, hc] at ha
      cases ha
      rfl
    refine ⟨fs, hrefuse ?_, hready, Files.Grows.refl _ _, fun _ => rfl⟩
    rw [Files.locate, hc, he']
    rfl
  | ok _ =>
    obtain ⟨grown, hgrows, hsound, hthere, -, hmake⟩ :=
      Files.makeDirectories_join hready.sound hready.unblocked hn hc
    have hensure : grown.ensureDirectory (join top id) = .error e := by
      rw [hthere.ensureDirectory_join hn, ha]
      rfl
    have hlocate : fs.locate (join top id) = .error .notFound := by
      rw [Files.locate, hc, Files.follow_join fs top hn,
        (hready.unblocked.stands_or_absent hready.sound).resolve_left hstands]
      rfl
    refine ⟨grown, ?_, Files.ready_of_stands hsound hthere, hgrows, fun h => absurd h hstands⟩
    rw [reset, Action.run_get_bind, hroot, hlocate]
    change (Action.attempt (join top id) _).run fs = _
    rw [Action.run_attempt, hmake, hensure]
    rfl

end Area

end NetTrial
