import Mathlib.Data.List.Forall2
import Mathlib.Data.List.Nodup
import Mathlib.Data.List.Perm.Basic
import NetTrial.Proofs.Searching
import NetTrial.Tool.Options
/-!
# The arguments of a compilation

An argument list that the compiler accepts is a row of groups, a flag and its value each or a
flag alone, and each group sets one thing; reading the list is setting these things one after the
other. So groups that set different things may stand in any order, a group behind an accepted
list overrides what was set before, and what options write is read back as far as it is written:
without calibration data their format is not.
-/

namespace NetTrial.CompileOptions

open Text

/-! ## Settings -/

/-- One thing that an argument list can set. -/
inductive Setting where
  /-- The format of the model. -/
  | inputFormat (name : String)
  /-- The target. -/
  | target (name : String)
  /-- The arithmetic. -/
  | inferenceType (kind : InferenceType)
  /-- The path of the calibration data. -/
  | dataset (path : String)
  /-- The format of the calibration data. -/
  | datasetFormat (format : DatasetFormat)
  /-- A floating-point input of a quantized artifact. -/
  | floatInput
  deriving DecidableEq

namespace Setting

/-- The options with one thing set and all others as they were. -/
def apply (o : CompileOptions) : Setting → CompileOptions
  | inputFormat name => { o with inputFormat := name }
  | target name => { o with target := name }
  | inferenceType kind => { o with inferenceType := kind }
  | dataset path => { o with dataset := some path }
  | datasetFormat format => { o with datasetFormat := format }
  | floatInput => { o with useFloatInput := true }

/-- The flag that a setting is written with. -/
def flag : Setting → String
  | inputFormat _ => "-i"
  | target _ => "-t"
  | inferenceType _ => "--inference-type"
  | dataset _ => "--dataset"
  | datasetFormat _ => "--dataset-format"
  | floatInput => "--use-float-input"

/-- The value that a setting is written with. -/
def value? : Setting → Option String
  | inputFormat name => some name
  | target name => some name
  | inferenceType kind => some kind.name
  | dataset path => some path
  | datasetFormat format => some format.name
  | floatInput => none

/-- The group that a setting is written as. -/
def written (s : Setting) : List String := s.flag :: s.value?.toList

/-- Whether the value of a setting would be taken for a flag. -/
def isMistaken (s : Setting) : Bool := s.value?.any looksLikeFlag

/-- The value of a setting when it can be any text, under its flag. -/
def freeValue? : Setting → Option (String × String)
  | inputFormat name => some ("-i", name)
  | target name => some ("-t", name)
  | dataset path => some ("--dataset", path)
  | inferenceType _ | datasetFormat _ | floatInput => none

/-- Only a value that can be any text is mistaken for a flag. -/
theorem isMistaken_eq_any (s : Setting) :
    s.isMistaken = s.freeValue?.any fun v => looksLikeFlag v.2 := by
  cases s with
  | inferenceType kind => cases kind <;> decide
  | datasetFormat format => cases format <;> decide
  | inputFormat | target | dataset | floatInput => rfl

theorem fst_of_freeValue? {s : Setting} {v : String × String} (h : s.freeValue? = some v) :
    v.1 = s.flag := by
  cases s <;> cases h <;> rfl

/-- The groups of arguments that set one thing: the format of the model and the target have a short
and a long flag, other names may have blanks around them, and a value must not look like a flag. -/
inductive Spelled : Setting → List String → Prop where
  /-- The format of the model. -/
  | inputFormat {flag name : String} : flag = "-i" ∨ flag = "--input-format" →
      looksLikeFlag name = false → Spelled (.inputFormat name) [flag, name]
  /-- The target. -/
  | target {flag name : String} : flag = "-t" ∨ flag = "--target" →
      looksLikeFlag name = false → Spelled (.target name) [flag, name]
  /-- The arithmetic. -/
  | inferenceType {word : String} {kind : InferenceType} : trim word = kind.name →
      Spelled (.inferenceType kind) ["--inference-type", word]
  /-- The path of the calibration data. -/
  | dataset {path : String} : looksLikeFlag path = false →
      Spelled (.dataset path) ["--dataset", path]
  /-- The format of the calibration data, in letters of either case. -/
  | datasetFormat {word : String} {format : DatasetFormat} :
      lowerAscii (trim word) = format.name →
      Spelled (.datasetFormat format) ["--dataset-format", word]
  /-- A floating-point input. -/
  | floatInput : Spelled .floatInput ["--use-float-input"]

/-- Settings that are the same where they have the same flag can be made in either order. -/
theorem apply_comm {s t : Setting} (h : s.flag = t.flag → s = t) (o : CompileOptions) :
    apply (apply o s) t = apply (apply o t) s := by
  by_cases hflag : s.flag = t.flag
  · rw [h hflag]
  · cases s <;> cases t <;> first | rfl | exact absurd rfl hflag

end Setting

/-! ## Names of data -/

/-- A text that looks like a flag still begins with a dash when it is trimmed. -/
theorem dash_trim {word : String} (h : looksLikeFlag word = true) :
    ∃ rest, (trim word).toList = '-' :: rest := by
  obtain ⟨rest, hword⟩ := opensWith_iff.mp h
  have hdash : isBlank '-' = false := rfl
  have htrim : trimChars word.toList = '-' :: '-' :: dropTrailingBlanks rest := by
    rw [hword, trimChars]
    change dropTrailingBlanks (dropBlanks ('-' :: '-' :: rest)) = _
    rw [dropBlanks_cons hdash, dropTrailingBlanks_cons hdash, dropTrailingBlanks_cons hdash]
  exact ⟨_, by rw [trim, String.toList_ofList, htrim]⟩

/-- A name of an arithmetic does not look like a flag. -/
theorem not_looksLikeFlag_of_trim {word : String} {kind : InferenceType}
    (h : trim word = kind.name) : looksLikeFlag word = false := by
  by_contra hflag
  obtain ⟨rest, htrim⟩ := dash_trim (eq_true_of_ne_false hflag)
  rw [h] at htrim
  cases kind <;> cases htrim

/-- A name of a dataset format does not look like a flag. -/
theorem not_looksLikeFlag_of_lowerAscii {word : String} {format : DatasetFormat}
    (h : lowerAscii (trim word) = format.name) : looksLikeFlag word = false := by
  by_contra hflag
  obtain ⟨rest, htrim⟩ := dash_trim (eq_true_of_ne_false hflag)
  have hlower : (lowerAscii (trim word)).toList = '-' :: rest.map Char.toLower := by
    rw [lowerAscii, String.toList_ofList, htrim]
    rfl
  rw [h] at hlower
  cases format <;> cases hlower

theorem parse_inferenceType_eq_ok_iff {word : String} {kind : InferenceType} :
    InferenceType.parse word = .ok kind ↔ trim word = kind.name := by
  rw [InferenceType.parse]
  by_cases hfloat : trim word = "float"
  · simp only [hfloat, if_true]
    cases kind <;> simp [InferenceType.name]
  · by_cases huint8 : trim word = "uint8"
    · simp only [huint8]
      cases kind <;> simp [InferenceType.name]
    · simp only [hfloat, huint8, if_false]
      cases kind <;> simp [InferenceType.name, hfloat, huint8]

theorem formatOf_eq_ok_iff {spelled word : String} {format : DatasetFormat} :
    formatOf spelled word = .ok format ↔ lowerAscii (trim word) = format.name := by
  rw [formatOf, DatasetFormat.parse]
  by_cases hraw : lowerAscii (trim word) = "raw"
  · simp only [hraw, if_true]
    cases format <;> simp [Except.mapError, DatasetFormat.name]
  · by_cases hnpy : lowerAscii (trim word) = "npy"
    · simp only [hnpy]
      cases format <;> simp [Except.mapError, DatasetFormat.name]
    · simp only [hraw, hnpy, if_false]
      cases format <;> simp [Except.mapError, DatasetFormat.name, hraw, hnpy]

/-! ## Reading groups -/

/-- A flag is read with its value: a value that looks like a flag is missed, any other is set. -/
theorem readArgs_valued {flag : Flag} {spelled : String}
    (hflag : Flag.ofSpelling? spelled = some flag) (o : CompileOptions) (value : String)
    (rest : List String) :
    readArgs o (spelled :: value :: rest) =
      if looksLikeFlag value then .error (.missingValue spelled)
      else (o.set flag spelled value).bind (readArgs · rest) := by
  have hother : spelled ≠ "--use-float-input" := by
    rintro rfl
    cases hflag
  rw [readArgs.eq_def]
  simp only [if_neg hother, hflag]
  cases o.set flag spelled value <;> rfl

theorem readArgs_set {flag : Flag} {spelled value : String} {o o' : CompileOptions}
    (hflag : Flag.ofSpelling? spelled = some flag) (hvalue : looksLikeFlag value = false)
    (hset : o.set flag spelled value = .ok o') (rest : List String) :
    readArgs o (spelled :: value :: rest) = readArgs o' rest := by
  rw [readArgs_valued hflag, hvalue, hset]
  rfl

theorem readArgs_floatInput (o : CompileOptions) (rest : List String) :
    readArgs o ("--use-float-input" :: rest) = readArgs { o with useFloatInput := true } rest := by
  rw [readArgs.eq_def]
  exact if_pos rfl

/-- A group sets one thing, whatever follows it. -/
theorem readArgs_of_spelled {s : Setting} {group : List String} (h : s.Spelled group)
    (o : CompileOptions) (rest : List String) :
    readArgs o (group ++ rest) = readArgs (s.apply o) rest := by
  cases h with
  | inputFormat hflag hname =>
    rcases hflag with rfl | rfl <;> exact readArgs_set rfl hname rfl rest
  | target hflag hname =>
    rcases hflag with rfl | rfl <;> exact readArgs_set rfl hname rfl rest
  | inferenceType hword =>
    refine readArgs_set rfl (not_looksLikeFlag_of_trim hword) ?_ rest
    rw [set, (parse_inferenceType_eq_ok_iff).mpr hword]
    rfl
  | dataset hpath => exact readArgs_set rfl hpath rfl rest
  | datasetFormat hword =>
    refine readArgs_set rfl (not_looksLikeFlag_of_lowerAscii hword) ?_ rest
    rw [set, (formatOf_eq_ok_iff).mpr hword]
    rfl
  | floatInput => exact readArgs_floatInput o rest

theorem ofSpelling?_eq_some {spelled : String} {flag : Flag}
    (h : Flag.ofSpelling? spelled = some flag) :
    match flag with
    | .inputFormat => spelled = "-i" ∨ spelled = "--input-format"
    | .target => spelled = "-t" ∨ spelled = "--target"
    | .inferenceType => spelled = "--inference-type"
    | .dataset => spelled = "--dataset"
    | .datasetFormat => spelled = "--dataset-format" := by
  rw [Flag.ofSpelling?] at h
  split_ifs at h <;> cases h <;> assumption

/-- A flag that takes its value is a group. -/
theorem spelled_of_set {flag : Flag} {spelled value : String} {o o' : CompileOptions}
    (hflag : Flag.ofSpelling? spelled = some flag) (hvalue : looksLikeFlag value = false)
    (hset : o.set flag spelled value = .ok o') :
    ∃ s : Setting, s.Spelled [spelled, value] ∧ o' = s.apply o := by
  have hspelled := ofSpelling?_eq_some hflag
  cases flag with
  | inputFormat => exact ⟨_, .inputFormat hspelled hvalue, (Except.ok.inj hset).symm⟩
  | target => exact ⟨_, .target hspelled hvalue, (Except.ok.inj hset).symm⟩
  | inferenceType =>
    cases hkind : InferenceType.parse value with
    | error e =>
      rw [set, hkind] at hset
      cases hset
    | ok kind =>
      rw [set, hkind] at hset
      have hgroup := Setting.Spelled.inferenceType ((parse_inferenceType_eq_ok_iff).mp hkind)
      exact ⟨.inferenceType kind, hspelled ▸ hgroup, (Except.ok.inj hset).symm⟩
  | dataset =>
    have hgroup := Setting.Spelled.dataset hvalue
    exact ⟨.dataset value, hspelled ▸ hgroup, (Except.ok.inj hset).symm⟩
  | datasetFormat =>
    cases hformat : formatOf spelled value with
    | error e =>
      rw [set, hformat] at hset
      cases hset
    | ok format =>
      rw [set, hformat] at hset
      have hgroup := Setting.Spelled.datasetFormat ((formatOf_eq_ok_iff).mp hformat)
      exact ⟨.datasetFormat format, hspelled ▸ hgroup, (Except.ok.inj hset).symm⟩

/-- A row of groups sets one thing after the other. -/
theorem readArgs_flatten {settings : List Setting} {groups : List (List String)}
    (h : List.Forall₂ Setting.Spelled settings groups) (o : CompileOptions) (rest : List String) :
    readArgs o (groups.flatten ++ rest) = readArgs (settings.foldl Setting.apply o) rest := by
  induction h generalizing o with
  | nil => rfl
  | @cons s group settings groups hgroup hgroups ih =>
    rw [List.flatten_cons, List.append_assoc, readArgs_of_spelled hgroup, ih]
    rfl

/-- The argument lists that are accepted are the rows of groups, and a row sets what its groups
set, one after the other. -/
theorem readArgs_eq_ok_iff {args : List String} {o o' : CompileOptions} :
    readArgs o args = .ok o' ↔
      ∃ settings groups, List.Forall₂ Setting.Spelled settings groups ∧ args = groups.flatten ∧
        o' = settings.foldl Setting.apply o := by
  constructor
  · intro h
    -- The refusals leave no options, so only the two ways of reading on are left.
    fun_induction readArgs o args with
    | case1 o =>
      cases h
      exact ⟨[], [], .nil, rfl, rfl⟩
    | case2 o rest ih =>
      obtain ⟨settings, groups, hgroups, rfl, rfl⟩ := ih h
      exact ⟨.floatInput :: settings, _, .cons .floatInput hgroups, rfl, rfl⟩
    | case3 => cases h
    | case4 => cases h
    | case5 => cases h
    | case6 => cases h
    | case7 o spelled _ flag value rest hflag hvalue set hset ih =>
      obtain ⟨settings, groups, hgroups, rfl, rfl⟩ := ih h
      obtain ⟨s, hs, rfl⟩ := spelled_of_set hflag (eq_false_of_ne_true hvalue) hset
      exact ⟨s :: settings, _, .cons hs hgroups, rfl, rfl⟩
  · rintro ⟨settings, groups, hgroups, rfl, rfl⟩
    have hread := readArgs_flatten hgroups o []
    rwa [List.append_nil] at hread

/-! ## Options as groups -/

/-- The settings that options are written as. -/
def settings (o : CompileOptions) : List Setting :=
  [.inputFormat o.inputFormat, .target o.target, .inferenceType o.inferenceType] ++
    (match o.dataset with
      | some path => [.dataset path, .datasetFormat o.datasetFormat]
      | none => []) ++
    (if o.useFloatInput then [.floatInput] else [])

/-- The values that are any texts, under their flags. -/
def freeValues (o : CompileOptions) : List (String × String) :=
  ("-i", o.inputFormat) :: ("-t", o.target) :: o.dataset.toList.map (Prod.mk "--dataset")

/-- The options without a format of calibration data that they do not name. -/
def toldFormat (o : CompileOptions) : CompileOptions :=
  { o with datasetFormat := if o.dataset.isSome then o.datasetFormat else .raw }

theorem freeValues_eq (o : CompileOptions) :
    o.freeValues = o.settings.filterMap Setting.freeValue? := by
  rcases o with ⟨kind, target, _ | path, format, _ | _, name⟩ <;> rfl

theorem flatten_settings (o : CompileOptions) :
    (o.settings.map Setting.written).flatten = o.toArgs := by
  rcases o with ⟨kind, target, _ | path, format, _ | _, name⟩ <;> rfl

theorem foldl_settings (o : CompileOptions) :
    o.settings.foldl Setting.apply {} = o.toldFormat := by
  rcases o with ⟨kind, target, _ | path, format, _ | _, name⟩ <;> rfl

/-- No two settings of options have one flag. -/
theorem flag_inj_of_mem_settings {o : CompileOptions} {s t : Setting} (hs : s ∈ o.settings)
    (ht : t ∈ o.settings) (h : s.flag = t.flag) : s = t := by
  have hnodup : (o.settings.map Setting.flag).Nodup := by
    rcases o with ⟨kind, target, _ | path, format, _ | _, name⟩ <;> simp [settings, Setting.flag]
  exact List.inj_on_of_nodup_map hnodup hs ht h

theorem toldFormat_eq_self_iff {o : CompileOptions} :
    o.toldFormat = o ↔ o.dataset.isSome ∨ o.datasetFormat = .raw := by
  rcases o with ⟨kind, target, _ | path, format, float, name⟩ <;> simp [toldFormat, eq_comm]

namespace Setting

/-- The flag of a setting in its long spelling. -/
def longFlag : Setting → String
  | inputFormat _ => "--input-format"
  | target _ => "--target"
  | s => s.flag

/-- A value that is not mistaken for a flag may be written behind either spelling of its flag. -/
theorem spelled_of_not_isMistaken {s : Setting} (h : s.isMistaken = false) {flag : String}
    (hflag : flag = s.flag ∨ flag = s.longFlag) : s.Spelled (flag :: s.value?.toList) := by
  cases s with
  | inputFormat name => exact .inputFormat hflag h
  | target name => exact .target hflag h
  | inferenceType kind =>
    obtain rfl : flag = "--inference-type" := or_self_iff.mp hflag
    exact .inferenceType (by cases kind <;> decide)
  | dataset path =>
    obtain rfl : flag = "--dataset" := or_self_iff.mp hflag
    exact .dataset h
  | datasetFormat format =>
    obtain rfl : flag = "--dataset-format" := or_self_iff.mp hflag
    exact .datasetFormat (by cases format <;> decide)
  | floatInput =>
    obtain rfl : flag = "--use-float-input" := or_self_iff.mp hflag
    exact .floatInput

end Setting

/-- A value that is mistaken for a flag is missed. -/
theorem readArgs_of_isMistaken {s : Setting} (h : s.isMistaken) (o : CompileOptions)
    (rest : List String) : readArgs o (s.written ++ rest) = .error (.missingValue s.flag) := by
  cases s with
  | inputFormat name => exact (readArgs_valued rfl o name rest).trans (if_pos h)
  | target name => exact (readArgs_valued rfl o name rest).trans (if_pos h)
  | inferenceType kind => cases kind <;> cases h
  | dataset path => exact (readArgs_valued rfl o path rest).trans (if_pos h)
  | datasetFormat format => cases format <;> cases h
  | floatInput => cases h

/-- Settings are read as they are written up to the first value that is mistaken for a flag. -/
theorem readArgs_written (settings : List Setting) (o : CompileOptions) :
    readArgs o (settings.map Setting.written).flatten =
      match settings.find? Setting.isMistaken with
      | some s => .error (.missingValue s.flag)
      | none => .ok (settings.foldl Setting.apply o) := by
  induction settings generalizing o with
  | nil => rfl
  | cons s settings ih =>
    rw [List.map_cons, List.flatten_cons]
    cases hs : s.isMistaken with
    | true => rw [readArgs_of_isMistaken hs, List.find?_cons_of_pos hs]
    | false =>
      have hgroup : s.Spelled s.written := Setting.spelled_of_not_isMistaken hs (.inl rfl)
      rw [readArgs_of_spelled hgroup, ih, List.find?_cons_of_neg (ne_true_of_eq_false hs)]
      rfl

/-- The first setting that is mistaken is the one of the first free value that looks like a flag. -/
theorem find?_settings (o : CompileOptions) :
    (o.settings.find? Setting.isMistaken).map Setting.flag =
      (o.freeValues.find? fun v => looksLikeFlag v.2).map Prod.fst := by
  have hmistaken : (fun s : Setting => s.freeValue?.any fun v => looksLikeFlag v.2) =
      Setting.isMistaken := funext fun s => s.isMistaken_eq_any.symm
  rw [freeValues_eq, List.find?_filterMap, hmistaken]
  cases hs : o.settings.find? Setting.isMistaken with
  | none => rfl
  | some s =>
    have hany : s.isMistaken := List.find?_some hs
    rw [Setting.isMistaken_eq_any] at hany
    obtain ⟨v, hv, -⟩ := (Option.any_eq_true _ _).mp hany
    change some s.flag = s.freeValue?.map Prod.fst
    rw [hv, Option.map_some, Setting.fst_of_freeValue? hv]

theorem find?_freeValues_eq_none_iff {o : CompileOptions} :
    (o.freeValues.find? fun v => looksLikeFlag v.2) = none ↔
      ∀ v ∈ o.freeValues, looksLikeFlag v.2 = false := by
  simp

/-- Options without a free value that looks like a flag have no setting that is mistaken. -/
theorem not_isMistaken_of_mem_settings {o : CompileOptions}
    (h : ∀ v ∈ o.freeValues, looksLikeFlag v.2 = false) {s : Setting} (hs : s ∈ o.settings) :
    s.isMistaken = false := by
  have hfind := find?_settings o
  rw [(find?_freeValues_eq_none_iff).mpr h] at hfind
  exact eq_false_of_ne_true (List.find?_eq_none.mp (Option.map_eq_none_iff.mp hfind) s hs)

/-- What options write is read as these options without a format that they do not name, or the
first value that looks like a flag is missed. -/
theorem ofArgs_toArgs (o : CompileOptions) :
    ofArgs o.toArgs =
      match o.freeValues.find? fun v => looksLikeFlag v.2 with
      | some v => .error (.missingValue v.1)
      | none => .ok o.toldFormat := by
  rw [ofArgs, ← flatten_settings, readArgs_written, foldl_settings]
  have hfind := find?_settings o
  cases hv : o.freeValues.find? fun v => looksLikeFlag v.2 with
  | none =>
    rw [hv] at hfind
    rw [Option.map_eq_none_iff.mp hfind]
  | some v =>
    rw [hv] at hfind
    obtain ⟨s, hs, hflag⟩ := Option.map_eq_some_iff.mp hfind
    simp only [hs, hflag]

theorem ofArgs_toArgs_eq_ok_iff {o : CompileOptions} :
    ofArgs o.toArgs = .ok o ↔
      (∀ v ∈ o.freeValues, looksLikeFlag v.2 = false) ∧
        (o.dataset.isSome ∨ o.datasetFormat = .raw) := by
  rw [ofArgs_toArgs, ← toldFormat_eq_self_iff]
  cases hv : o.freeValues.find? fun v => looksLikeFlag v.2 with
  | none =>
    have hfree := (find?_freeValues_eq_none_iff).mp hv
    exact ⟨fun h => ⟨hfree, Except.ok.inj h⟩, fun h => congrArg Except.ok h.2⟩
  | some v =>
    have hflag : looksLikeFlag v.2 := by simpa using List.find?_some hv
    refine ⟨fun h => (nomatch h), fun h => ?_⟩
    rw [h.1 v (List.mem_of_find?_eq_some hv)] at hflag
    cases hflag

/-- Groups that set what options say, in any order and either spelling, are read as the options
that these groups in their own order are read as. -/
theorem ofArgs_of_perm {o : CompileOptions} {order : List Setting} {groups : List (List String)}
    (horder : order.Perm o.settings) (hgroups : List.Forall₂ Setting.Spelled order groups) :
    ofArgs groups.flatten = .ok o.toldFormat := by
  have hcomm : order.foldl Setting.apply {} = o.settings.foldl Setting.apply {} := by
    -- Only settings of one flag override each other, and options make each setting once.
    refine horder.foldl_eq' (fun s hs t ht made => ?_) _
    have hs := horder.subset hs
    have ht := horder.subset ht
    exact Setting.apply_comm (fun h => flag_inj_of_mem_settings hs ht h) made
  rw [ofArgs, readArgs_eq_ok_iff]
  exact ⟨order, groups, hgroups, rfl, by rw [hcomm, foldl_settings]⟩

/-- Accepted arguments are read on into what follows them. -/
theorem ofArgs_append {args : List String} {made : CompileOptions} (h : ofArgs args = .ok made)
    (rest : List String) : ofArgs (args ++ rest) = readArgs made rest := by
  obtain ⟨settings, groups, hgroups, rfl, rfl⟩ := readArgs_eq_ok_iff.mp h
  exact readArgs_flatten hgroups {} rest

/-- Options and argument lists correspond: what options write is read as these options exactly
when none of their free values looks like a flag and calibration data of a format other than the
default is there; the first value that looks like a flag is missed, and without one only the
format can be lost. Options that are read back are so from their groups in any order and in
either spelling of a flag, and a group behind an accepted list sets what it says and nothing
else. -/
theorem arguments_correspond (o : CompileOptions) :
    (ofArgs o.toArgs = .ok o ↔
      (∀ v ∈ o.freeValues, looksLikeFlag v.2 = false) ∧
        (o.dataset.isSome ∨ o.datasetFormat = .raw)) ∧
    (∀ v, o.freeValues.find? (fun v => looksLikeFlag v.2) = some v →
      ofArgs o.toArgs = .error (.missingValue v.1)) ∧
    ((∀ v ∈ o.freeValues, looksLikeFlag v.2 = false) →
      ofArgs o.toArgs =
        .ok { o with datasetFormat := if o.dataset.isSome then o.datasetFormat else .raw }) ∧
    (o.settings.map Setting.written).flatten = o.toArgs ∧
    (ofArgs o.toArgs = .ok o → ∀ (order : List Setting) (groups : List (List String)),
      order.Perm o.settings →
      List.Forall₂ (fun s group => group = s.written ∨ group = s.longFlag :: s.value?.toList)
        order groups →
      ofArgs groups.flatten = .ok o) ∧
    (∀ (args : List String) (made : CompileOptions), ofArgs args = .ok made →
      ∀ (s : Setting) (group : List String), s.Spelled group →
      ofArgs (args ++ group) = .ok (s.apply made)) := by
  refine ⟨ofArgs_toArgs_eq_ok_iff, fun v hv => ?_, fun hfree => ?_, flatten_settings o,
    fun hback order groups horder hgroups => ?_, fun args made hargs s group hgroup => ?_⟩
  · rw [ofArgs_toArgs, hv]
  · rw [ofArgs_toArgs, (find?_freeValues_eq_none_iff).mpr hfree]
    rfl
  · obtain ⟨hfree, hformat⟩ := (ofArgs_toArgs_eq_ok_iff).mp hback
    rw [← (toldFormat_eq_self_iff).mpr hformat]
    have hplain : ∀ s ∈ order, s.isMistaken = false := fun s hs =>
      not_isMistaken_of_mem_settings hfree (horder.subset hs)
    refine ofArgs_of_perm horder (((List.forall₂_and_left _ _).mpr ⟨hplain, hgroups⟩).imp ?_)
    rintro s group ⟨hs, rfl | rfl⟩
    · exact Setting.spelled_of_not_isMistaken hs (.inl rfl)
    · exact Setting.spelled_of_not_isMistaken hs (.inr rfl)
  · rw [ofArgs_append hargs]
    have hread := readArgs_of_spelled hgroup made []
    rwa [List.append_nil] at hread

/-- Options whose path and names begin with a dash, and all of whose fields are set. -/
def dashed : CompileOptions where
  inferenceType := .uint8
  target := "-i"
  dataset := some "-t"
  datasetFormat := .npy
  useFloatInput := true
  inputFormat := "- -"

/-- A row of the groups of `dashed` in another order, a target with a missing value, and a group
that overrides the target. -/
theorem dashed_arguments_correspond :
    ofArgs dashed.toArgs = .ok dashed ∧
    ofArgs ["--use-float-input", "--dataset", "-t", "--target", "-i", "--dataset-format", "npy",
      "--inference-type", "uint8", "--input-format", "- -"] = .ok dashed ∧
    ofArgs (dashed.toArgs ++ ["--target", "k210"]) = .ok { dashed with target := "k210" } ∧
    ofArgs ["-i", "ncv-graph", "-t", "--dataset", "--inference-type", "float"] =
      .error (.missingValue "-t") := by
  obtain ⟨hback, -, -, -, horder, happend⟩ := arguments_correspond dashed
  have hdashed : ofArgs dashed.toArgs = .ok dashed := hback.mpr (by decide)
  refine ⟨hdashed, ?_, happend _ _ hdashed (.target "k210") _ (.target (.inr rfl) rfl), ?_⟩
  · refine horder hdashed [.floatInput, .dataset "-t", .target "-i", .datasetFormat .npy,
        .inferenceType .uint8, .inputFormat "- -"]
      [["--use-float-input"], ["--dataset", "-t"], ["--target", "-i"], ["--dataset-format", "npy"],
        ["--inference-type", "uint8"], ["--input-format", "- -"]] (by decide) ?_
    exact .cons (.inl rfl) (.cons (.inl rfl) (.cons (.inr rfl) (.cons (.inl rfl)
      (.cons (.inl rfl) (.cons (.inr rfl) .nil)))))
  · obtain ⟨-, hmissing, -⟩ := arguments_correspond { target := "--dataset" }
    exact hmissing ("-t", "--dataset") rfl

end NetTrial.CompileOptions
