import NetTrial.Text.Blank
/-!
# Finding words and dropping blanks

A search gives what follows the first occurrence of a word. Where the text in front cannot start
the word the search passes over it. Blanks at either end of a text are dropped, and those behind
a character that is none are all the blanks at the end.
-/

namespace NetTrial.Text

variable {word cs rest front : List Char}

/-! ## Occurrences -/

/-- Whether a rest of a text is what follows the first occurrence of a word in it. -/
def StandsFirst (word cs rest : List Char) : Prop :=
  ∃ front, cs = front ++ word ++ rest ∧
    ∀ front' rest', cs = front' ++ word ++ rest' → front.length ≤ front'.length

theorem opensWith_append (word rest : List Char) : opensWith word (word ++ rest) = true :=
  opensWith_iff.mpr ⟨rest, rfl⟩

/-- An occurrence of a word that does not open a text is one in its tail. -/
theorem standsFirst_cons {c : Char} (h : opensWith word (c :: cs) = false) :
    StandsFirst word (c :: cs) rest ↔ StandsFirst word cs rest := by
  have htail : ∀ front rest', c :: cs = front ++ word ++ rest' →
      ∃ front', front = c :: front' ∧ cs = front' ++ word ++ rest' := by
    intro front rest' hsplit
    cases front with
    | nil =>
      rw [List.nil_append] at hsplit
      rw [hsplit, opensWith_append] at h
      cases h
    | cons d front' =>
      rw [List.cons_append, List.cons_append, List.cons.injEq] at hsplit
      exact ⟨front', by rw [hsplit.1], hsplit.2⟩
  constructor
  · rintro ⟨front, hsplit, hfirst⟩
    obtain ⟨front', hfront, hcs⟩ := htail front rest hsplit
    refine ⟨front', hcs, fun other rest' hother => ?_⟩
    have hle := hfirst (c :: other) rest' (by rw [hother]; rfl)
    rw [hfront, List.length_cons, List.length_cons] at hle
    omega
  · rintro ⟨front, hsplit, hfirst⟩
    refine ⟨c :: front, by rw [hsplit]; rfl, fun other rest' hother => ?_⟩
    obtain ⟨other', hshort, hcs⟩ := htail other rest' hother
    have hle := hfirst other' rest' hcs
    rw [hshort, List.length_cons, List.length_cons]
    omega

theorem after?_cons_of_not {c : Char} (h : opensWith word (c :: cs) = false) :
    after? word (c :: cs) = after? word cs := by
  rw [after?, h]
  rfl

/-- The search gives what follows the first occurrence. -/
theorem after?_eq_some_iff : after? word cs = some rest ↔ StandsFirst word cs rest := by
  induction cs with
  | nil =>
    cases word with
    | nil =>
      simp only [after?, List.isEmpty_nil, if_true, Option.some.injEq]
      constructor
      · intro h
        exact ⟨[], h, fun _ _ _ => Nat.zero_le _⟩
      · rintro ⟨front, h, _⟩
        exact (List.append_eq_nil_iff.mp h.symm).2.symm
    | cons w ws =>
      simp only [after?, List.isEmpty_cons, Bool.false_eq_true, if_false]
      constructor
      · intro h
        cases h
      · rintro ⟨front, h, _⟩
        have hnil := (List.append_eq_nil_iff.mp h.symm).1
        cases (List.append_eq_nil_iff.mp hnil).2
  | cons c cs ih =>
    by_cases hopens : opensWith word (c :: cs) = true
    · obtain ⟨tail, htail⟩ := opensWith_iff.mp hopens
      have hfound : after? word (c :: cs) = some tail := by
        rw [after?, if_pos hopens, htail, List.drop_left]
      rw [hfound, Option.some.injEq]
      constructor
      · intro h
        exact ⟨[], by rw [htail, h]; rfl, fun _ _ _ => Nat.zero_le _⟩
      · rintro ⟨front, hsplit, hfirst⟩
        have hzero : front.length = 0 := Nat.le_zero.mp (hfirst [] tail htail)
        rw [List.length_eq_zero_iff.mp hzero, htail] at hsplit
        exact List.append_cancel_left hsplit
    · have hclosed : opensWith word (c :: cs) = false := Bool.eq_false_iff.mpr hopens
      rw [after?_cons_of_not hclosed, ih, standsFirst_cons hclosed]

/-- A word that occurs has a first occurrence. -/
theorem after?_eq_none_iff : after? word cs = none ↔ ¬ word <:+: cs := by
  induction cs with
  | nil =>
    cases word <;> simp [after?]
  | cons c cs ih =>
    by_cases hopens : opensWith word (c :: cs) = true
    · obtain ⟨tail, htail⟩ := opensWith_iff.mp hopens
      have hoccurs : word <:+: c :: cs := ⟨[], tail, by rw [htail]; rfl⟩
      rw [after?, if_pos hopens]
      simp [hoccurs]
    · have hclosed : opensWith word (c :: cs) = false := Bool.eq_false_iff.mpr hopens
      have hnot : ¬ word <+: c :: cs := by
        rintro ⟨tail, htail⟩
        exact hopens (opensWith_iff.mpr ⟨tail, htail.symm⟩)
      rw [after?_cons_of_not hclosed, ih, List.infix_cons_iff]
      simp [hnot]

theorem after?_append (word rest : List Char) : after? word (word ++ rest) = some rest :=
  (after?_eq_some_iff).mpr ⟨[], rfl, fun _ _ _ => Nat.zero_le _⟩

/-- A search passes over a text without the character that the word opens with. -/
theorem after?_append_of_not_mem {w : Char} (h : w ∉ front) (word rest : List Char) :
    after? (w :: word) (front ++ rest) = after? (w :: word) rest := by
  induction front with
  | nil => rfl
  | cons c front ih =>
    rw [List.mem_cons, not_or] at h
    have hclosed : opensWith (w :: word) (c :: (front ++ rest)) = false := by
      rw [opensWith, beq_eq_false_iff_ne.mpr h.1, Bool.false_and]
    rw [List.cons_append, after?_cons_of_not hclosed, ih h.2]

/-- Two words that end at the first separator are the same when the one opens the other. -/
theorem opensWith_closed {separator : Char} {other : List Char} (hword : separator ∉ word)
    (hother : separator ∉ other) :
    opensWith (word ++ [separator]) (other ++ separator :: rest) = true ↔ other = word := by
  induction word generalizing other with
  | nil =>
    cases other with
    | nil => simp [opensWith]
    | cons d other =>
      rw [List.mem_cons, not_or] at hother
      simp [opensWith, hother.1]
  | cons c word ih =>
    rw [List.mem_cons, not_or] at hword
    cases other with
    | nil => simp [opensWith, Ne.symm hword.1]
    | cons d other =>
      rw [List.mem_cons, not_or] at hother
      have hrest := ih hword.2 hother.2
      simp only [List.cons_append, opensWith, Bool.and_eq_true, beq_iff_eq, hrest,
        List.cons.injEq]
      exact ⟨fun h => ⟨h.1.symm, h.2⟩, fun h => ⟨h.1.symm, h.2⟩⟩

/-- A text is cut at the first occurrence of a character. -/
theorem cut_iff {stop : Char} :
    cs.contains stop = true ∧ cs.takeWhile (· != stop) = front ↔
      stop ∉ front ∧ ∃ rest, cs = front ++ stop :: rest := by
  constructor
  · rintro ⟨hcontains, hfront⟩
    have hstop : stop ∉ front := by
      intro hmem
      rw [← hfront] at hmem
      have hne := List.all_eq_true.mp (List.all_takeWhile (p := (· != stop)) (l := cs)) stop hmem
      simp at hne
    refine ⟨hstop, ?_⟩
    have hsplit : cs = front ++ cs.dropWhile (· != stop) := by
      rw [← hfront, List.takeWhile_append_dropWhile]
    cases htail : cs.dropWhile (· != stop) with
    | nil =>
      rw [htail, List.append_nil] at hsplit
      rw [← hsplit] at hstop
      exact absurd (List.contains_iff_mem.mp hcontains) hstop
    | cons c rest =>
      have hhead := List.head?_dropWhile_not (· != stop) cs
      rw [htail] at hhead
      have hc : c = stop := by simpa using hhead
      exact ⟨rest, by rw [hsplit, htail, hc]⟩
  · rintro ⟨hstop, rest, hsplit⟩
    have hfront : ∀ c ∈ front, (c != stop) = true := by
      intro c hc
      rw [bne_iff_ne]
      intro heq
      exact hstop (heq ▸ hc)
    rw [hsplit, List.takeWhile_append_of_pos hfront]
    simp

/-- What stands in front of the first occurrence of a character is the same however it is cut. -/
theorem cut_unique {stop : Char} {other rest' : List Char} (hfront : stop ∉ front)
    (hother : stop ∉ other) (h : front ++ stop :: rest = other ++ stop :: rest') : front = other :=
  ((cut_iff).mpr ⟨hfront, rest, rfl⟩).2.symm.trans ((cut_iff).mpr ⟨hother, rest', h⟩).2

/-! ## Blanks -/

/-- Blank characters. -/
structure Blanks where
  /-- The characters. -/
  chars : List Char
  /-- They are blank. -/
  blank : ∀ c ∈ chars, isBlank c = true

namespace Blanks

/-- No blanks. -/
def none : Blanks := ⟨[], fun c hc => by cases hc⟩

/-- One blank. -/
def single (c : Char) (h : isBlank c = true) : Blanks :=
  ⟨[c], fun d hd => by rw [List.mem_singleton.mp hd, h]⟩

/-- One space. -/
def space : Blanks := single ' ' rfl

/-- Spaces up to the end of a line. -/
def padding (spaces : Nat) : Blanks where
  chars := List.replicate spaces ' ' ++ ['\n']
  blank := by
    intro c hc
    rcases List.mem_append.mp hc with hc | hc
    · rw [List.eq_of_mem_replicate hc]
      rfl
    · rw [List.mem_singleton.mp hc]
      rfl

end Blanks

theorem dropBlanks_append (blanks : Blanks) (rest : List Char) :
    dropBlanks (blanks.chars ++ rest) = dropBlanks rest := by
  obtain ⟨chars, hblank⟩ := blanks
  induction chars with
  | nil => rfl
  | cons c chars ih =>
    have hc : isBlank c = true := hblank c List.mem_cons_self
    rw [List.cons_append, dropBlanks, List.dropWhile_cons, if_pos hc]
    exact ih fun d hd => hblank d (List.mem_cons_of_mem c hd)

theorem dropBlanks_cons {c : Char} (h : isBlank c = false) (rest : List Char) :
    dropBlanks (c :: rest) = c :: rest := by
  rw [dropBlanks, List.dropWhile_cons, h]
  rfl

/-- What is dropped at the beginning of a text are blanks, and all of them. -/
theorem exists_dropBlanks (cs : List Char) :
    ∃ blanks : Blanks, cs = blanks.chars ++ dropBlanks cs ∧
      ∀ c ∈ (dropBlanks cs).head?, isBlank c = false := by
  refine ⟨⟨cs.takeWhile isBlank, fun c hc => List.all_eq_true.mp List.all_takeWhile c hc⟩,
    List.takeWhile_append_dropWhile.symm, fun c hc => ?_⟩
  rw [dropBlanks] at hc
  have hnot := List.head?_dropWhile_not isBlank cs
  rw [Option.mem_def.mp hc] at hnot
  exact hnot

theorem dropTrailingBlanks_append {c : Char} (h : isBlank c = false) (front : List Char)
    (blanks : Blanks) :
    dropTrailingBlanks (front ++ [c] ++ blanks.chars) = front ++ [c] := by
  have hback : ∀ d ∈ blanks.chars.reverse, isBlank d = true := fun d hd =>
    blanks.blank d (List.mem_reverse.mp hd)
  have hdrop := dropBlanks_append ⟨blanks.chars.reverse, hback⟩ (c :: front.reverse)
  rw [dropBlanks_cons h, dropBlanks] at hdrop
  rw [dropTrailingBlanks, List.reverse_append, List.reverse_append, List.reverse_singleton,
    List.singleton_append, hdrop, List.reverse_cons, List.reverse_reverse]

/-- Blanks are dropped behind a character that is none. -/
theorem dropTrailingBlanks_cons {c : Char} (h : isBlank c = false) (rest : List Char) :
    dropTrailingBlanks (c :: rest) = c :: dropTrailingBlanks rest := by
  have hstays : [c].dropWhile isBlank = [c] := dropBlanks_cons h []
  rw [dropTrailingBlanks, dropTrailingBlanks, List.reverse_cons, List.dropWhile_append, hstays]
  cases hback : rest.reverse.dropWhile isBlank with
  | nil => rfl
  | cons d back => simp

/-- The blanks around a text without any are trimmed. -/
theorem trimChars_around (before after : Blanks) {cs : List Char}
    (h : ∀ c ∈ cs, isBlank c = false) : trimChars (before.chars ++ cs ++ after.chars) = cs := by
  rw [trimChars, List.append_assoc, dropBlanks_append]
  rcases List.eq_nil_or_concat cs with hnil | ⟨front, c, hcs⟩
  · subst hnil
    have hall := dropBlanks_append after []
    rw [List.append_nil] at hall
    rw [List.nil_append, hall]
    rfl
  · rw [List.concat_eq_append] at hcs
    have hopens : dropBlanks (cs ++ after.chars) = cs ++ after.chars := by
      cases cs with
      | nil => simp at hcs
      | cons d ds => exact dropBlanks_cons (h d List.mem_cons_self) _
    have hlast : isBlank c = false := h c (by rw [hcs]; simp)
    rw [hopens, hcs, dropTrailingBlanks_append hlast]

end NetTrial.Text
