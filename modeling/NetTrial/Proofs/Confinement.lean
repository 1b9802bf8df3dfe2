import NetTrial.Proofs.OpenPaths
/-!
# Keeping to a directory

Once the directory of an area stands, what is staged and prepared in it is confined to it: only
entries of the directory are changed. What every launch and every change within the directory
keeps true of the files and of the state of the launcher is true after both invocations.
-/

namespace NetTrial

open NetTrial.Path Text Digest NetTrial.Action

namespace Files

variable {fs fs' fs'' : Files} {root name : String} {loc spot : Location}

/-- Only what is in a directory is changed, and no directory is lost. -/
structure Within (root : String) (fs fs' : Files) : Prop where
  /-- Whatever is there stays in directories. -/
  sound : fs.Sound → fs'.Sound
  /-- Elsewhere nothing is changed. -/
  elsewhere : ∀ loc, ¬ location root <+: loc → fs'.get? loc = fs.get? loc
  /-- No directory is lost. -/
  directory : ∀ loc, fs.isDirectoryAt loc = true → fs'.isDirectoryAt loc = true

theorem Within.refl (root : String) (fs : Files) : fs.Within root fs :=
  ⟨id, fun _ _ => rfl, fun _ h => h⟩

theorem Within.trans (h : fs.Within root fs') (h' : fs'.Within root fs'') :
    fs.Within root fs'' :=
  ⟨fun hs => h'.sound (h.sound hs), fun loc hl => (h'.elsewhere loc hl).trans (h.elsewhere loc hl),
    fun loc hd => h'.directory loc (h.directory loc hd)⟩

theorem Within.stands (h : fs.Within root fs') {path : String} (hs : fs.Stands path) :
    fs'.Stands path := hs.mono h.directory

/-- What is changed at one entry of a standing directory is in it. -/
theorem Touches.within (h : fs.Touches (location root ++ [name]) fs') (hs : fs.Stands root) :
    fs.Within root fs' := by
  refine ⟨fun hsound => hsound.touches h (by rw [List.dropLast_concat]; exact hs.2),
    fun loc hl => h.same loc ?_, fun loc hd => ?_⟩
  · rintro rfl
    exact hl (List.prefix_append _ _)
  · rw [isDirectoryAt_iff] at hd ⊢
    by_cases hl : loc = location root ++ [name]
    · rw [hl] at hd ⊢
      exact h.directory hd
    · rw [h.same loc hl, hd]

/-- Files that are the same everywhere. -/
theorem within_of_same (h : ∀ loc, fs'.get? loc = fs.get? loc) : fs.Within root fs' := by
  refine ⟨fun hs loc name hl => ?_, fun loc _ => h loc, fun loc hd => ?_⟩
  · rw [h] at hl
    rw [isDirectoryAt, h]
    exact hs loc name hl
  · rw [isDirectoryAt, h]
    exact hd

/-- Where a directory stands, making those above it makes nothing. -/
theorem Grows.same (h : fs.Grows (OnPath root) fs') (hs : fs.Stands root) (loc : Location) :
    fs'.get? loc = fs.get? loc := by
  by_cases hl : OnPath root loc
  · refine h.kept loc ?_
    rw [isDirectoryAt_iff.mp (hs.onPath hl)]
    exact Option.some_ne_none _
  · exact h.elsewhere hl

end Files

namespace Area

variable {a : Area} {fs fs' : Files} {m : Manifest} {case : String} {name : String}

theorem Stored.within {bytes : Bytes} (hn : IsName name) (hs : fs.Stands a.root)
    (h : a.Stored (join a.root name) bytes fs fs') : fs.Within a.root fs' := by
  obtain ⟨grown, hgrows, hstands, hwrite⟩ := h.made
  have htouch := (Files.write_placed hwrite).touches
  rw [location_join a.root hn] at htouch
  exact (Files.within_of_same (hgrows.same hs)).trans (htouch.within hstands)

theorem withManifest_within (h : a.Lists fs m) (hs : fs.Stands a.root) (m' : Manifest) :
    fs.Within a.root (a.withManifest fs m') :=
  (Files.touches_set a.manifestSpot_ne_nil _ fun hd =>
    absurd hd (h.get?_ne_directory hs)).within hs

theorem Entered.within {bytes : Bytes} {change : Manifest → Manifest} {r : Except Failure Unit}
    (hn : IsName name) (hs : fs.Stands a.root)
    (h : a.Entered (join a.root name) bytes change fs r fs') : fs.Within a.root fs' := by
  cases h with
  | refused hg => exact Files.within_of_same (hg.same hs)
  | unrecorded hst _ => exact hst.within hn hs
  | recorded hst hl =>
    exact (hst.within hn hs).trans (withManifest_within hl hst.stands _)

theorem stageTensor_within (hs : fs.Stands a.root) (case : String) (role : Role) (t : Tensor) :
    fs.Within a.root ((a.stageTensor case role t).run fs).2 := by
  rcases a.stageTensor_ends case role t fs with ⟨e, he⟩ | ⟨bytes, r, fs₁, hc, -, hrun, hends⟩
  · rw [he]
    exact Files.Within.refl _ _
  · rw [hrun]
    exact hends.within (a.isName_tensorFile (checkCase_ok hc).1 role) hs

theorem stageModel_within (hs : fs.Stands a.root) (source : ModelSource)
    (hn : IsName (modelFile source.format)) :
    fs.Within a.root ((a.stageModel source).run fs).2 := by
  rcases a.stageModel_ends source fs with ⟨e, he⟩ | ⟨bytes, r, fs₁, -, hrun, hends⟩
  · rw [he]
    exact Files.Within.refl _ _
  · rw [hrun]
    exact hends.within hn hs

/-- A change that ends within a directory, whether it succeeds or not, and a success of which
lets something be done to the case. -/
theorem stageTensor_ends_within (hs : fs.Stands a.root) (case : String) (role : Role)
    (t : Tensor) : (a.stageTensor case role t).Ends fs (fun _ fs' => fs.Within a.root fs')
      fun _ fs' => fs.Within a.root fs' ∧ '/' ∉ case.toList := by
  have hwithin := stageTensor_within hs case role t
  refine ⟨fun hr => ?_, fun hr => ?_⟩
  · rw [hr] at hwithin
    exact hwithin
  · rw [hr] at hwithin
    refine ⟨hwithin, ?_⟩
    rcases a.stageTensor_ends case role t fs with ⟨e, he⟩ | ⟨_, _, _, hc, -⟩
    · rw [he] at hr
      cases hr
    · exact (checkCase_ok hc).1

theorem recordExternal_within (a : Area) (case : String) (role : Role) (kind : ElementType)
    (fs : Files) : fs.Within a.root ((a.recordExternal case role kind).run fs).2 := by
  rcases a.recordExternal_ends case role kind fs with
    ⟨e, he⟩ | ⟨bytes, told, m, -, -, -, hs, hl, hrun⟩
  · rw [he]
    exact Files.Within.refl _ _
  · rw [hrun]
    exact withManifest_within hl hs _

end Area

/-! ## What endures -/

/-- Something that is true of the files and of the state of a launcher stays true in a trial:
changes within a directory keep it, and so do the launches for the directory. -/
structure Launcher.Endures {σ : Type} (l : Launcher σ) (tools : Toolchain) (a : Area)
    (keeps : Files → σ → Prop) : Prop where
  /-- Changes within the directory keep it. -/
  within : ∀ {fs fs' : Files} {t : σ}, fs.Within a.root fs' → keeps fs t → keeps fs' t
  /-- The compiler keeps it. -/
  compiler : ∀ {o : CompileOptions} {fs fs' : Files} {request : Request} {path : String} {t : σ},
    (a.prepareCompile tools.compiler o).run fs = (.ok (request, path), fs') → keeps fs' t →
      keeps (l.launch request fs' t).2.1 (l.launch request fs' t).2.2
  /-- The runtime keeps it. -/
  runtime : ∀ {case : String} {o : InferOptions} {fs fs' : Files} {request : Request} {t : σ},
    '/' ∉ case.toList → (a.prepareInfer tools.runtime case o).run fs = (.ok request, fs') →
      keeps fs' t → keeps (l.launch request fs' t).2.1 (l.launch request fs' t).2.2

namespace Area

variable {σ : Type} {a : Area} {l : Launcher σ} {tools : Toolchain} {b b' : Bench σ}
  {keeps : Files → σ → Prop} {case : String}

theorem prepareCompile_within {c : ToolCommand} {o : CompileOptions} {fs fs' : Files}
    {prepared : Request × String} (h : (a.prepareCompile c o).run fs = (.ok prepared, fs')) :
    fs.Within a.root fs' := by
  obtain ⟨-, hs, -, hfrees, -⟩ := (a.prepareCompile_ends c o fs).of_ok h
  exact hfrees.touches.within hs

theorem prepareInfer_within {c : ToolCommand} {o : InferOptions} {fs fs' : Files}
    {request : Request} (hc : '/' ∉ case.toList)
    (h : (a.prepareInfer c case o).run fs = (.ok request, fs')) : fs.Within a.root fs' := by
  obtain ⟨-, -, hs, -, hfrees⟩ := (a.prepareInfer_ends c case o fs).of_ok h
  have htouch := (hfrees hc).touches
  rw [candidateSpot_eq hc] at htouch
  exact htouch.within hs

/-- A compilation keeps what endures. -/
theorem Compiling.endures {o : CompileOptions} {r : Except Failure Compiled}
    (h : a.Compiling l tools.compiler o b r b') (he : l.Endures tools a keeps)
    (hb : keeps b.files b.tools) : keeps b'.files b'.tools := by
  cases h with
  | refused => exact hb
  | unread hp => exact he.within (prepareCompile_within hp) hb
  | failed hp | made hp _ _ => exact he.compiler hp (he.within (prepareCompile_within hp) hb)

/-- An inference keeps what endures. -/
theorem Inferring.endures {o : InferOptions} {r : Except Failure String}
    (h : a.Inferring l tools.runtime case o b r b') (he : l.Endures tools a keeps)
    (hc : '/' ∉ case.toList) (hb : keeps b.files b.tools) : keeps b'.files b'.tools := by
  cases h with
  | refused => exact hb
  | unread hp => exact he.within (prepareInfer_within hc hp) hb
  | failed hp _ | unrecorded hp _ =>
    exact he.runtime hc hp (he.within (prepareInfer_within hc hp) hb)
  | @recorded request prepared _ _ hp _ hr =>
    have hrecord := a.recordExternal_within case .candidate .f32
      (Bench.launch l request case { b with files := prepared }).2.files
    rw [hr] at hrecord
    exact he.within hrecord (he.runtime hc hp (he.within (prepareInfer_within hc hp) hb))

end Area

end NetTrial
