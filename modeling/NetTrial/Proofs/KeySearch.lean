import NetTrial.Proofs.HeaderLiterals
/-!
# Keys in dictionary literals

Between two words of a dictionary literal stands a colon, a comma or a brace, and no key has one
of these. So a quoted key occurs in the text only as a word of an entry: as its key, or as its
value. A search for it passes from one entry to the next until one of them has the word. The
reader counts keys in the pieces between commas, those inside tuples included; where only spaces
are in front of the keys, each entry counts once.
-/

namespace NetTrial.Npy

open Number Text Json

variable {d : Dictionary} {e : Entry} {h : Header} {quote : Quote}
variable {key word value rest cs found : List Char} {more : List Entry} {close : Option Blanks}

/-! ## Occurrences of a key -/

theorem descr_mem_keys : "descr" ∈ keys := by decide

theorem order_mem_keys : "fortran_order" ∈ keys := by decide

theorem shape_mem_keys : "shape" ∈ keys := by decide

/-- A text without a quote or one of the characters that stand between words. -/
structure Plain (key : List Char) : Prop where
  /-- It has no quote. -/
  unquoted : Unquoted key
  /-- It has no mark. -/
  unmarked : ':' ∉ key ∧ ',' ∉ key ∧ '\x7d' ∉ key

theorem plain_of_mem_keys {name : String} (hname : name ∈ keys) : Plain name.toList := by
  have hquotes : ∀ name ∈ keys, '\'' ∉ name.toList ∧ '"' ∉ name.toList := by decide
  have hmarks : ∀ name ∈ keys, ':' ∉ name.toList ∧ ',' ∉ name.toList ∧ '\x7d' ∉ name.toList := by
    decide
  exact ⟨unquoted_iff.mpr (hquotes name hname), hmarks name hname⟩

/-- A key as a word. -/
def keyWord (name : String) (hname : name ∈ keys) : Word :=
  ⟨name.toList, (plain_of_mem_keys hname).unquoted⟩

/-- Whether a text goes on with a colon, a comma or a brace before any quote. -/
def Parted (rest : List Char) : Prop :=
  ∃ gap mark tail, rest = gap ++ mark :: tail ∧ Unquoted gap ∧
    (mark = ':' ∨ mark = ',' ∨ mark = '\x7d')

/-- Whether a text is what can follow an entry. -/
def Ends (rest : List Char) : Prop :=
  ∃ mark tail, rest = mark :: tail ∧ (mark = ',' ∨ mark = '\x7d')

theorem unquoted_blanks (blanks : Blanks) : Unquoted blanks.chars := by
  intro quote hmem
  have hblank := blanks.blank quote.char hmem
  rw [quote.not_blank] at hblank
  cases hblank

theorem unquoted_singleton {c : Char} (hsingle : c ≠ '\'') (hdouble : c ≠ '"') : Unquoted [c] := by
  rw [unquoted_iff, List.mem_singleton, List.mem_singleton]
  exact ⟨hsingle.symm, hdouble.symm⟩

theorem Unquoted.append {cs rest : List Char} (hcs : Unquoted cs) (hrest : Unquoted rest) :
    Unquoted (cs ++ rest) := by
  intro quote hmem
  rcases List.mem_append.mp hmem with hmem | hmem
  · exact hcs quote hmem
  · exact hrest quote hmem

/-- Blanks in front of what follows an entry. -/
theorem Ends.parted (hends : Ends rest) (blanks : Blanks) : Parted (blanks.chars ++ rest) := by
  obtain ⟨mark, tail, hrest, hmark⟩ := hends
  exact ⟨blanks.chars, mark, tail, by rw [hrest], unquoted_blanks blanks, .inr hmark⟩

/-- A search for a quoted key passes over a text without quotes. -/
theorem after?_unquoted (hcs : Unquoted cs) :
    after? (quote.around key) (cs ++ rest) = after? (quote.around key) rest :=
  after?_append_of_not_mem (hcs quote) _ _

/-- No key starts at the closing quote of a word. -/
theorem not_opensWith_parted (hkey : Plain key) (hrest : Parted rest) :
    opensWith (quote.around key) (quote.char :: rest) = false := by
  obtain ⟨gap, mark, tail, hrest, hgap, hmark⟩ := hrest
  have hne : quote.char ≠ mark := by
    intro heq
    cases quote <;> rcases hmark with hm | hm | hm <;> rw [hm] at heq <;> cases heq
  have hkeyed : mark ∉ key := by
    rcases hmark with hm | hm | hm
    · exact hm ▸ hkey.unmarked.1
    · exact hm ▸ hkey.unmarked.2.1
    · exact hm ▸ hkey.unmarked.2.2
  rw [Bool.eq_false_iff]
  intro hopens
  obtain ⟨after, hafter⟩ := opensWith_iff.mp hopens
  rw [hrest, Quote.around_append, List.cons.injEq] at hafter
  rcases List.append_eq_append_iff.mp hafter.2 with ⟨part, hpart, hmarked⟩ | ⟨part, hpart, hquoted⟩
  · -- the key reaches as far as the mark
    cases part with
    | nil => exact hne (List.cons.inj hmarked).1.symm
    | cons c part =>
      rw [List.cons_append, List.cons.injEq] at hmarked
      exact hkeyed (by rw [hpart, hmarked.1]; simp)
  · -- the key is closed before the mark
    cases part with
    | nil => exact hne (List.cons.inj hquoted).1
    | cons c part =>
      rw [List.cons_append, List.cons.injEq] at hquoted
      exact hgap quote (by rw [hpart, hquoted.1]; simp)

/-- A quoted word is the key that is looked for, or the search goes on behind it. -/
theorem after?_around {other : Quote} (hword : Unquoted word) (hkey : Plain key)
    (hrest : Parted rest)
    (hfound : after? (quote.around key) (other.around word ++ rest) = some found) :
    (other = quote ∧ word = key ∧ found = rest) ∨
      after? (quote.around key) rest = some found := by
  by_cases hquote : other = quote
  · rw [hquote] at hfound ⊢
    by_cases hsame : word = key
    · rw [hsame, after?_append] at hfound
      exact .inl ⟨rfl, hsame, (Option.some.inj hfound).symm⟩
    · have hclosed : opensWith (quote.around key) (quote.char :: (word ++ quote.char :: rest)) =
          false := by
        have hwords : opensWith (key ++ [quote.char]) (word ++ quote.char :: rest) = true ↔
            word = key := opensWith_closed (hkey.unquoted quote) (hword quote)
        simp only [Quote.around, opensWith, beq_self_eq_true, Bool.true_and]
        rw [Bool.eq_false_iff]
        exact fun hopens => hsame (hwords.mp hopens)
      rw [Quote.around_append, after?_cons_of_not hclosed, after?_unquoted hword,
        after?_cons_of_not (not_opensWith_parted hkey hrest)] at hfound
      exact .inr hfound
  · have hother : ∀ c ∈ other.around word, c ≠ quote.char := by
      intro c hc heq
      rw [Quote.around, List.mem_cons, List.mem_append, List.mem_singleton] at hc
      rcases hc with hc | hc | hc
      · exact hquote (Quote.char_inj (hc.symm.trans heq))
      · exact hword quote (heq ▸ hc)
      · exact hquote (Quote.char_inj (hc.symm.trans heq))
    have hpass : after? (quote.around key) (other.around word ++ rest) =
        after? (quote.around key) rest :=
      after?_append_of_not_mem (fun hmem => hother _ hmem rfl) _ _
    exact .inr (hpass ▸ hfound)

/-! ## Occurrences in an entry -/

/-- Only a word has quotes. -/
theorem Value.unquoted {v : Value} (hv : ∀ quote word, v ≠ .text quote word) :
    Unquoted v.chars := by
  cases v with
  | text quote word => exact absurd rfl (hv quote word)
  | truth holds =>
    intro quote
    cases holds <;> cases quote <;> decide
  | nothing =>
    intro quote
    cases quote <;> decide
  | number first more => exact unquoted_digits (first :: more)
  | tuple t =>
    have hopen : Unquoted ['('] := unquoted_singleton (by decide) (by decide)
    have hclose : Unquoted [')'] := unquoted_singleton (by decide) (by decide)
    exact hopen.append (t.unquoted_inner.append hclose)

/-- What stands in an entry behind a word of it. -/
inductive Entry.Holds (e : Entry) (quote : Quote) (word : List Char) : List Char → Prop where
  /-- The word is the key. -/
  | key : e.quote = quote → e.key.chars = word → e.Holds quote word e.afterKey
  /-- The word is the value. -/
  | value (text : Word) : e.value = .text quote text → text.chars = word →
      e.Holds quote word e.trail.chars

namespace Entry

theorem afterKey_append (e : Entry) (rest : List Char) :
    e.afterKey ++ rest =
      (e.before.chars ++ ':' :: e.after.chars) ++ (e.value.chars ++ (e.trail.chars ++ rest)) := by
  simp [afterKey]

theorem unquoted_colon (e : Entry) : Unquoted (e.before.chars ++ ':' :: e.after.chars) := by
  have hcolon : Unquoted [':'] := unquoted_singleton (by decide) (by decide)
  exact (unquoted_blanks e.before).append (hcolon.append (unquoted_blanks e.after))

/-- A key that is found in an entry is a word of it. -/
theorem after?_chars (hkey : Plain key) (hends : Ends rest)
    (hfound : after? (quote.around key) (e.chars ++ rest) = some found) :
    (∃ behind, e.Holds quote key behind ∧ found = behind ++ rest) ∨
      after? (quote.around key) rest = some found := by
  have hcolon : Parted (e.afterKey ++ rest) :=
    ⟨e.before.chars, ':', e.after.chars ++ (e.value.chars ++ (e.trail.chars ++ rest)),
      by rw [afterKey_append]; simp, unquoted_blanks e.before, .inl rfl⟩
  rw [chars, List.append_assoc, List.append_assoc, after?_unquoted (unquoted_blanks e.lead)]
    at hfound
  rcases after?_around e.key.unquoted hkey hcolon hfound with ⟨hquote, hword, hrest⟩ | hfound
  · exact .inl ⟨e.afterKey, .key hquote hword, hrest⟩
  rw [afterKey_append, after?_unquoted e.unquoted_colon] at hfound
  by_cases hvalue : ∃ other text, e.value = .text other text
  · obtain ⟨other, text, hvalue⟩ := hvalue
    rw [hvalue] at hfound
    rcases after?_around text.unquoted hkey (hends.parted e.trail) hfound with
      ⟨hquote, hword, hrest⟩ | hfound
    · exact .inl ⟨e.trail.chars, .value text (hquote ▸ hvalue) hword, hrest⟩
    · rw [after?_unquoted (unquoted_blanks e.trail)] at hfound
      exact .inr hfound
  · have hunquoted : Unquoted e.value.chars :=
      Value.unquoted fun other text heq => hvalue ⟨other, text, heq⟩
    rw [after?_unquoted hunquoted, after?_unquoted (unquoted_blanks e.trail)] at hfound
    exact .inr hfound

end Entry

/-! ## Occurrences in a dictionary -/

/-- What stands behind the first entry. -/
def tailChars (more : List Entry) (close : Option Blanks) : List Char :=
  (more.map Entry.chars ++ closing close).flatMap (fun piece => ',' :: piece) ++ ['\x7d']

theorem tailChars_cons (e : Entry) (more : List Entry) (close : Option Blanks) :
    tailChars (e :: more) close = ',' :: (e.chars ++ tailChars more close) := by
  simp [tailChars]

theorem ends_tailChars (more : List Entry) (close : Option Blanks) :
    Ends (tailChars more close) := by
  cases more with
  | cons e more => exact ⟨',', _, tailChars_cons e more close, .inl rfl⟩
  | nil =>
    cases close with
    | none => exact ⟨'\x7d', [], rfl, .inr rfl⟩
    | some blanks => exact ⟨',', _, rfl, .inl rfl⟩

theorem Dictionary.chars_eq (d : Dictionary) :
    d.chars = '\x7b' :: (d.first.chars ++ tailChars d.more d.close) := by
  simp [Dictionary.chars, Dictionary.inner, separated, tailChars]

theorem after?_tailChars (hkey : Plain key)
    (hfound : after? (quote.around key) (tailChars more close) = some found) :
    ∃ e ∈ more, ∃ behind post, e.Holds quote key behind ∧ Ends post ∧ found = behind ++ post := by
  have hcomma : Unquoted [','] := unquoted_singleton (by decide) (by decide)
  induction more with
  | nil =>
    have hunquoted : Unquoted (tailChars [] close) := by
      have hbrace : Unquoted ['\x7d'] := unquoted_singleton (by decide) (by decide)
      cases close with
      | none => exact hbrace
      | some blanks =>
        have hblanks := hcomma.append ((unquoted_blanks blanks).append hbrace)
        simpa [tailChars, closing] using hblanks
    rw [← List.append_nil (tailChars [] close), after?_unquoted hunquoted] at hfound
    cases hfound
  | cons e more ih =>
    rw [tailChars_cons, ← List.singleton_append, after?_unquoted hcomma] at hfound
    rcases Entry.after?_chars hkey (ends_tailChars more close) hfound with
      ⟨behind, hholds, heq⟩ | hfound
    · exact ⟨e, List.mem_cons_self, behind, _, hholds, ends_tailChars more close, heq⟩
    · obtain ⟨e', he', hrest⟩ := ih hfound
      exact ⟨e', List.mem_cons_of_mem e he', hrest⟩

/-- A key that is found in a dictionary is a word of one of its entries. -/
theorem Dictionary.after?_chars (hkey : Plain key)
    (hfound : after? (quote.around key) d.chars = some found) :
    ∃ e ∈ d.entries, ∃ behind post, e.Holds quote key behind ∧ Ends post ∧
      found = behind ++ post := by
  have hbrace : Unquoted ['\x7b'] := unquoted_singleton (by decide) (by decide)
  rw [d.chars_eq, ← List.singleton_append, after?_unquoted hbrace] at hfound
  rcases Entry.after?_chars hkey (ends_tailChars d.more d.close) hfound with
    ⟨behind, hholds, heq⟩ | hfound
  · exact ⟨d.first, List.mem_cons_self, behind, _, hholds, ends_tailChars d.more d.close, heq⟩
  · obtain ⟨e, he, hrest⟩ := after?_tailChars hkey hfound
    exact ⟨e, List.mem_cons_of_mem d.first he, hrest⟩

/-- Every key of a dictionary occurs in its text. -/
theorem Dictionary.key_infix (he : e ∈ d.entries) : e.quote.around e.key.chars <:+: d.chars := by
  have hkey : e.quote.around e.key.chars <:+: e.chars :=
    ⟨e.lead.chars, e.afterKey, by rw [Entry.chars, List.append_assoc]⟩
  have htail : ∀ more : List Entry, e ∈ more → e.chars <:+: tailChars more d.close := by
    intro more hmem
    induction more with
    | nil => cases hmem
    | cons first more ih =>
      rw [tailChars_cons]
      refine List.IsInfix.trans ?_ (List.suffix_cons ',' _).isInfix
      rcases List.mem_cons.mp hmem with hmem | hmem
      · rw [hmem]
        exact (List.prefix_append _ _).isInfix
      · exact (ih hmem).trans (List.suffix_append _ _).isInfix
  refine hkey.trans ?_
  rw [d.chars_eq]
  refine List.IsInfix.trans ?_ (List.suffix_cons '\x7b' _).isInfix
  rcases List.mem_cons.mp he with he | he
  · rw [he]
    exact (List.prefix_append _ _).isInfix
  · exact (htail d.more he).trans (List.suffix_append _ _).isInfix

/-! ## The value of a key -/

theorem Value.exists_cons (v : Value) : ∃ c cs, v.chars = c :: cs ∧ isBlank c = false := by
  cases v with
  | text quote word => exact ⟨quote.char, _, rfl, quote.not_blank⟩
  | truth holds => cases holds <;> exact ⟨_, _, rfl, by decide⟩
  | nothing => exact ⟨'N', _, rfl, by decide⟩
  | number first more => exact ⟨digitOf first, _, rfl, digitOf_not_blank first⟩
  | tuple t => exact ⟨'(', _, rfl, by decide⟩

/-- Behind a key comes the value of its entry. -/
theorem Entry.value_of_afterKey {tail post : List Char}
    (hcolon : dropBlanks (e.afterKey ++ post) = ':' :: tail) :
    dropBlanks tail = e.value.chars ++ (e.trail.chars ++ post) := by
  obtain ⟨c, cs, hvalue, hblank⟩ := e.value.exists_cons
  rw [afterKey_append, List.append_assoc, dropBlanks_append, List.cons_append,
    dropBlanks_cons (by decide), List.cons.injEq] at hcolon
  rw [← hcolon.2, dropBlanks_append, hvalue]
  exact dropBlanks_cons hblank _

/-- The value that follows a key in a dictionary is that of an entry with this key: a word that is
a value has no colon behind it. -/
theorem Dictionary.value_of_followsKey (hkey : Plain key)
    (hfollows : FollowsKey key d.chars value) :
    ∃ e ∈ d.entries, e.key.chars = key ∧ ∃ post, value = e.value.chars ++ post := by
  obtain ⟨quote, rest, hstands, -, hcolon⟩ := hfollows
  obtain ⟨tail, hcolon, hvalue⟩ := dropBlanks_eq_colon_iff.mpr hcolon
  obtain ⟨e, he, behind, post, hholds, hends, hrest⟩ :=
    Dictionary.after?_chars hkey (after?_eq_some_iff.mpr hstands)
  rw [hrest] at hcolon
  cases hholds with
  | key _ hword => exact ⟨e, he, hword, _, hvalue ▸ Entry.value_of_afterKey hcolon⟩
  | value =>
    obtain ⟨mark, tail', hpost, hmark⟩ := hends
    have hnot : isBlank mark = false := by
      rcases hmark with hmark | hmark <;> rw [hmark] <;> decide
    rw [dropBlanks_append, hpost, dropBlanks_cons hnot, List.cons.injEq] at hcolon
    rcases hmark with hmark | hmark <;> rw [hmark] at hcolon <;> cases hcolon.1

/-- A key that no other entry has and that is no value is found where it is. -/
theorem Dictionary.exists_followsKey (he : e ∈ d.entries) (hkey : Plain e.key.chars)
    (hkeys : ∀ e' ∈ d.entries, e'.key.chars = e.key.chars → e' = e)
    (hvalues : ∀ e' ∈ d.entries, ∀ quote text, e'.value = .text quote text →
      text.chars ≠ e.key.chars) :
    ∃ post, FollowsKey e.key.chars d.chars (e.value.chars ++ post) := by
  have hplace : ∀ quote found, after? (quote.around e.key.chars) d.chars = some found →
      e.quote = quote ∧ ∃ post, found = e.afterKey ++ post := by
    intro quote found hfound
    obtain ⟨e', he', behind, post, hholds, -, heq⟩ := Dictionary.after?_chars hkey hfound
    cases hholds with
    | key hquote hword => exact hkeys e' he' hword ▸ ⟨hquote, post, heq⟩
    | value text hvalue hword => exact absurd hword (hvalues e' he' quote text hvalue)
  cases hfound : after? (e.quote.around e.key.chars) d.chars with
  | none => exact absurd (Dictionary.key_infix he) (after?_eq_none_iff.mp hfound)
  | some found =>
    obtain ⟨-, post, heq⟩ := hplace e.quote found hfound
    obtain ⟨c, cs, hvalue, hblank⟩ := e.value.exists_cons
    refine ⟨e.trail.chars ++ post, e.quote, found, after?_eq_some_iff.mp hfound, ?_, e.before,
      e.after, by rw [heq, Entry.afterKey]; simp, ?_⟩
    · intro hdouble hinfix
      cases hsingle : after? (Quote.single.around e.key.chars) d.chars with
      | none => exact after?_eq_none_iff.mp hsingle hinfix
      | some other =>
        have hquote := (hplace .single other hsingle).1
        rw [hdouble] at hquote
        cases hquote
    · intro c' hc'
      rw [hvalue] at hc'
      exact Option.some.inj hc' ▸ hblank

/-! ## The number of keys -/

theorem keyCount_append_comma (cs rest : List Char) :
    keyCount (cs ++ ',' :: rest) = keyCount cs + keyCount rest := by
  rw [keyCount, splitOn_append_separator, List.countP_append]
  rfl

/-- No key opens a piece without quotes. -/
theorem Unquoted.opensWithKey (hcs : Unquoted cs) : opensWithKey cs = false := by
  rw [Npy.opensWithKey]
  generalize hpiece : (cs.dropWhile fun c => decide (c = '\x7b') || decide (c = ' ')) = piece
  have hclosed : ∀ (quote : Quote) (word : List Char),
      opensWith (quote.around word) piece = false := by
    intro quote word
    rw [Bool.eq_false_iff]
    intro hopens
    obtain ⟨tail, htail⟩ := opensWith_iff.mp hopens
    have hmem : quote.char ∈ piece := by
      rw [htail]
      exact List.mem_cons_self
    rw [← hpiece] at hmem
    exact hcs quote (List.dropWhile_subset _ hmem)
  have hkeys : ∀ key, quotedKeys key =
      [Quote.single.around key.toList, Quote.double.around key.toList] := fun _ => rfl
  simp [hkeys, hclosed]

theorem Unquoted.keyCount (hcs : Unquoted cs) : keyCount cs = 0 := by
  rw [Npy.keyCount, List.countP_eq_zero]
  intro piece hpiece
  have hunquoted : Unquoted piece := fun quote hmem =>
    hcs quote (mem_of_mem_splitOn hpiece hmem)
  rw [hunquoted.opensWithKey]
  exact Bool.false_ne_true

/-- Whether a text opens with a key, in the way that the reader counts keys, and has no other
piece that could open with one. -/
def Keyed (cs : List Char) : Prop :=
  ∃ front, (∀ c ∈ front, c = '\x7b' ∨ c = ' ') ∧ ∃ quote : Quote, ∃ name ∈ keys, ∃ tail,
    cs = front ++ (quote.around name.toList ++ tail) ∧ (',' ∉ tail ∨ Unquoted tail)

theorem opensWithKey_around {front tail : List Char} {name : String}
    (hfront : ∀ c ∈ front, c = '\x7b' ∨ c = ' ') (hname : name ∈ keys) :
    opensWithKey (front ++ (quote.around name.toList ++ tail)) = true := by
  have hskip : ∀ c ∈ front, (decide (c = '\x7b') || decide (c = ' ')) = true := by
    intro c hc
    simpa using hfront c hc
  have hstop : (quote.around name.toList ++ tail).dropWhile
      (fun c => decide (c = '\x7b') || decide (c = ' ')) = quote.around name.toList ++ tail := by
    cases quote <;> rfl
  have hquoted : quote.around name.toList ∈ quotedKeys name := by
    cases quote <;> simp [quotedKeys, Quote.around, Quote.char]
  rw [opensWithKey, List.dropWhile_append_of_pos hskip, hstop]
  exact List.any_eq_true.mpr ⟨name, hname, List.any_eq_true.mpr
    ⟨_, hquoted, opensWith_append _ _⟩⟩

theorem Keyed.keyCount (hkeyed : Keyed cs) : keyCount cs = 1 := by
  obtain ⟨front, hfront, quote, name, hname, tail, hcs, htail⟩ := hkeyed
  have hcomma : ',' ∉ front ++ quote.around name.toList := by
    intro hmem
    rw [Quote.around, List.mem_append, List.mem_cons, List.mem_append, List.mem_singleton] at hmem
    have hchar : ',' ≠ quote.char := by
      cases quote <;> decide
    rcases hmem with hmem | hmem | hmem | hmem
    · rcases hfront ',' hmem with hc | hc <;> cases hc
    · exact hchar hmem
    · exact (plain_of_mem_keys hname).unmarked.2.1 hmem
    · exact hchar hmem
  obtain ⟨piece, pieces, hsplit⟩ := List.exists_cons_of_ne_nil (splitOn_ne_nil ',' tail)
  have hlater : pieces.countP opensWithKey = 0 := by
    rcases htail with htail | htail
    · rw [splitOn_of_not_mem htail, List.cons.injEq] at hsplit
      rw [← hsplit.2]
      rfl
    · have hzero := htail.keyCount
      rw [Npy.keyCount, hsplit, List.countP_eq_zero] at hzero
      rw [List.countP_eq_zero]
      exact fun other hother => hzero other (List.mem_cons_of_mem piece hother)
  have hopens : opensWithKey (front ++ quote.around name.toList ++ piece) = true := by
    rw [List.append_assoc]
    exact opensWithKey_around hfront hname
  rw [hcs, ← List.append_assoc, Npy.keyCount, splitOn_append_front hcomma hsplit,
    List.countP_cons_of_pos hopens, hlater]

/-- A closing brace opens no piece. -/
theorem Keyed.closed (hkeyed : Keyed cs) : Keyed (cs ++ ['\x7d']) := by
  obtain ⟨front, hfront, quote, name, hname, tail, hcs, htail⟩ := hkeyed
  refine ⟨front, hfront, quote, name, hname, tail ++ ['\x7d'], by rw [hcs]; simp, ?_⟩
  rcases htail with htail | htail
  · exact .inl (by simp [htail])
  · exact .inr (htail.append (unquoted_singleton (by decide) (by decide)))

/-- Every entry that opens with a key counts once. -/
theorem keyCount_tailChars (hcs : Keyed cs) (hmore : ∀ e ∈ more, Keyed e.chars) :
    keyCount (cs ++ tailChars more close) = more.length + 1 := by
  induction more generalizing cs with
  | nil =>
    cases close with
    | none => exact hcs.closed.keyCount
    | some blanks =>
      have htail : tailChars [] (some blanks) = ',' :: (blanks.chars ++ ['\x7d']) := by
        simp [tailChars, closing]
      have hbrace : Unquoted ['\x7d'] := unquoted_singleton (by decide) (by decide)
      rw [htail, keyCount_append_comma, hcs.keyCount,
        ((unquoted_blanks blanks).append hbrace).keyCount]
      rfl
  | cons e more ih =>
    have he : Keyed e.chars := hmore e List.mem_cons_self
    have hcount := ih he fun e' he' => hmore e' (List.mem_cons_of_mem e he')
    rw [tailChars_cons, keyCount_append_comma, hcs.keyCount, hcount, List.length_cons]
    omega

end NetTrial.Npy
