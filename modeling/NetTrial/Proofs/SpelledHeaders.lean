import Mathlib.Data.List.Perm.Subperm
import Mathlib.Data.List.Nodup
import NetTrial.Proofs.KeySearch
/-!
# Spelled headers

A dictionary literal that spells a header is legible as this header, in whatever order, quotes and
blanks it is written: the count of keys does not depend on them, and each key leads to the value of
its entry. The other way round the reader is not as strict. It asks for three pieces that open with
a key and for values that open in the right way. But a dictionary literal of three entries that is
legible spells the header: the keys that were found are all there are, and each value is whole.
-/

namespace NetTrial.Npy

open Number Text Json

variable {d : Dictionary} {e : Entry} {v : Value} {h : Header} {quote : Quote}
variable {text post rest : List Char} {name : String} {count : Nat}

/-! ## Values by how they open -/

/-- A value that opens with a quoted word is this word. -/
theorem Value.eq_text {word : List Char} (hword : quote.char ∉ word)
    (heq : v.chars ++ post = quote.around word ++ rest) :
    ∃ text : Word, v = .text quote text ∧ text.chars = word := by
  rw [Quote.around_append] at heq
  cases v with
  | text other text =>
    rw [chars_text, Quote.around_append, List.cons.injEq] at heq
    have hquote := Quote.char_inj heq.1
    rw [hquote] at heq ⊢
    exact ⟨text, rfl, cut_unique (text.unquoted quote) hword heq.2⟩
  | truth holds =>
    cases holds <;> cases quote <;> exact absurd (List.cons.inj heq).1 (by decide)
  | nothing => cases quote <;> exact absurd (List.cons.inj heq).1 (by decide)
  | number first more =>
    exact absurd (List.mem_cons.mpr (.inl (List.cons.inj heq).1.symm))
      (unquoted_digits (first :: more) quote)
  | tuple t => cases quote <;> exact absurd (List.cons.inj heq).1 (by decide)

/-- A value that opens with `False` is this truth value. -/
theorem Value.eq_false (heq : v.chars ++ post = "False".toList ++ rest) : v = .truth false := by
  have hdigit : ∀ d, digitOf d ≠ 'F' := by decide
  cases v with
  | text other text => cases other <;> exact absurd (List.cons.inj heq).1 (by decide)
  | truth holds =>
    cases holds with
    | false => rfl
    | true => exact absurd (List.cons.inj heq).1 (by decide)
  | nothing => exact absurd (List.cons.inj heq).1 (by decide)
  | number first more => exact absurd (List.cons.inj heq).1 (hdigit first)
  | tuple t => exact absurd (List.cons.inj heq).1 (by decide)

/-- A value that opens with a bracket is a tuple, and ends where the bracket is closed. -/
theorem Value.eq_tuple {inner : List Char} (hinner : ')' ∉ inner)
    (heq : v.chars ++ post = '(' :: (inner ++ ')' :: rest)) :
    ∃ t : Tuple, v = .tuple t ∧ t.inner = inner := by
  have hdigit : ∀ d, digitOf d ≠ '(' := by decide
  cases v with
  | text other text => cases other <;> exact absurd (List.cons.inj heq).1 (by decide)
  | truth holds => cases holds <;> exact absurd (List.cons.inj heq).1 (by decide)
  | nothing => exact absurd (List.cons.inj heq).1 (by decide)
  | number first more => exact absurd (List.cons.inj heq).1 (hdigit first)
  | tuple t =>
    rw [chars_tuple, List.cons_append, List.append_assoc, List.cons.injEq] at heq
    exact ⟨t, rfl, cut_unique t.bracket_not_mem_inner hinner heq.2⟩

/-- The blanks behind a dictionary are dropped. -/
theorem Dictionary.dropTrailingBlanks_chars (d : Dictionary) (padding : Blanks) :
    dropTrailingBlanks (d.chars ++ padding.chars) = d.chars :=
  dropTrailingBlanks_append (by decide) ('\x7b' :: d.inner) padding

/-! ## Keys of a spelled header -/

theorem nodup_keys : (keys.map String.toList).Nodup := by decide

/-- A word that is a value of a spelled header names its element type. -/
theorem Entry.Tells.descriptor (htells : e.Tells h) {word : Word}
    (hvalue : e.value = .text quote word) : String.ofList word.chars ∈ descriptors h.kind := by
  cases htells with
  | kind other text _ htext hmem =>
    rw [hvalue, Value.text.injEq] at htext
    rw [htext.2]
    exact hmem
  | order _ htext =>
    rw [hvalue] at htext
    cases htext
  | shape t _ htext =>
    rw [hvalue] at htext
    cases htext

theorem Entry.Tells.mem_keys (htells : e.Tells h) : ∃ name ∈ keys, e.key.chars = name.toList := by
  cases htells with
  | kind _ _ hkey => exact ⟨"descr", descr_mem_keys, hkey⟩
  | order hkey => exact ⟨"fortran_order", order_mem_keys, hkey⟩
  | shape _ hkey => exact ⟨"shape", shape_mem_keys, hkey⟩

theorem descriptors_plain {kind : ElementType} (hname : name ∈ descriptors kind) :
    ',' ∉ name.toList ∧ name ∉ keys := by
  revert name
  cases kind <;> decide

namespace Dictionary.Listed

variable (hl : d.Listed)

include hl

theorem exists_entry (hname : name ∈ keys) : ∃ e ∈ d.entries, e.key.chars = name.toList :=
  List.mem_map.mp (hl.mem_iff.mpr (List.mem_map_of_mem hname))

theorem entry_unique {e e' : Entry} (he : e ∈ d.entries) (he' : e' ∈ d.entries)
    (hkey : e.key.chars = e'.key.chars) : e = e' :=
  List.inj_on_of_nodup_map (hl.nodup_iff.mpr nodup_keys) he he' hkey

/-- The value that follows a key is that of the entry with this key. -/
theorem value_of_followsKey (he : e ∈ d.entries) (hname : name ∈ keys)
    (hkey : e.key.chars = name.toList) {value : List Char}
    (hfollows : FollowsKey name.toList d.chars value) : ∃ post, value = e.value.chars ++ post := by
  obtain ⟨e', he', hkey', post, hvalue⟩ :=
    Dictionary.value_of_followsKey (plain_of_mem_keys hname) hfollows
  have hsame : e' = e := hl.entry_unique he' he (hkey'.trans hkey.symm)
  exact ⟨post, hsame ▸ hvalue⟩

end Dictionary.Listed

/-- In a spelled header each key is found, and behind it the value of its entry. -/
theorem Dictionary.Spells.exists_followsKey (hs : d.Spells h) (hname : name ∈ keys) :
    ∃ e ∈ d.entries, e.key.chars = name.toList ∧
      ∃ post, FollowsKey name.toList d.chars (e.value.chars ++ post) := by
  obtain ⟨e, he, hkey⟩ := hs.listed.exists_entry hname
  refine ⟨e, he, hkey, ?_⟩
  rw [← hkey]
  refine Dictionary.exists_followsKey he (hkey ▸ plain_of_mem_keys hname)
    (fun e' he' hsame => hs.listed.entry_unique he' he hsame)
    fun e' he' quote word hvalue hword => ?_
  have hdescriptor := (hs.told e' he').descriptor hvalue
  rw [hword, hkey, String.ofList_toList] at hdescriptor
  exact (descriptors_plain hdescriptor).2 hname

/-! ## A spelled header is legible -/

/-- Only spaces stand in front of the keys of a dictionary. -/
def Dictionary.Spaced (d : Dictionary) : Prop := ∀ e ∈ d.entries, ∀ c ∈ e.lead.chars, c = ' '

/-- An entry of a spelled header counts once, its tuple included. -/
theorem Entry.Tells.keyed (htells : e.Tells h) (hspaced : ∀ c ∈ e.lead.chars, c = ' ')
    {front : List Char} (hfront : ∀ c ∈ front, c = '\x7b' ∨ c = ' ') :
    Keyed (front ++ e.chars) := by
  obtain ⟨name, hname, hkey⟩ := htells.mem_keys
  have htail : ',' ∉ e.afterKey ∨ Unquoted e.afterKey := by
    rw [← List.append_nil e.afterKey, e.afterKey_append]
    by_cases hvalue : ∃ quote word, e.value = .text quote word
    · left
      obtain ⟨quote, word, hvalue⟩ := hvalue
      have hword : ',' ∉ word.chars := by
        have hmem := (descriptors_plain (htells.descriptor hvalue)).1
        rwa [String.toList_ofList] at hmem
      have hchar : ',' ≠ quote.char := by
        cases quote <;> decide
      rw [hvalue]
      simp [Value.chars_text, Quote.around, comma_not_mem_blanks, hword, hchar]
    · right
      have hunquoted : Unquoted e.value.chars :=
        Value.unquoted fun quote word heq => hvalue ⟨quote, word, heq⟩
      rw [List.append_nil]
      exact e.unquoted_colon.append (hunquoted.append (unquoted_blanks e.trail))
  refine ⟨front ++ e.lead.chars, fun c hc => ?_, e.quote, name, hname, e.afterKey, ?_, htail⟩
  · rcases List.mem_append.mp hc with hc | hc
    · exact hfront c hc
    · exact .inr (hspaced c hc)
  · rw [Entry.chars, hkey, List.append_assoc]

namespace Dictionary.Spells

variable (hs : d.Spells h)

include hs

theorem keyCount (hspaced : d.Spaced) : keyCount d.chars = 3 := by
  have hfirst : Keyed (['\x7b'] ++ d.first.chars) := by
    refine (hs.told d.first List.mem_cons_self).keyed (hspaced d.first List.mem_cons_self) ?_
    intro c hc
    exact .inl (List.mem_singleton.mp hc)
  have hmore : ∀ e ∈ d.more, Keyed e.chars := by
    intro e he
    have hmem : e ∈ d.entries := List.mem_cons_of_mem d.first he
    have hfront : ∀ c ∈ ([] : List Char), c = '\x7b' ∨ c = ' ' := fun c hc => by cases hc
    exact (hs.told e hmem).keyed (hspaced e hmem) hfront
  have hlength : d.more.length + 1 = 3 := by
    have hkeys := hs.listed.length_eq
    rwa [List.length_map, entries, List.length_cons] at hkeys
  rw [d.chars_eq, ← List.cons_append]
  exact (keyCount_tailChars hfirst hmore).trans hlength

/-- A spelled header is legible: the count of keys does not depend on order, quotes and tuple, and
each key leads to the value that its entry has. -/
theorem legible (hspaced : d.Spaced) (hdims : ∀ dim ∈ h.shape, dim < wordLimit)
    (hrank : h.shape.length ≤ largestRank) (hcount : h.shape.elementCount = .ok count) :
    Legible d.chars h where
  braced := ⟨d.inner, rfl⟩
  counted := hs.keyCount hspaced
  kind := by
    obtain ⟨e, he, hkey, post, hfollows⟩ := hs.exists_followsKey descr_mem_keys
    cases hs.told e he with
    | kind quote word _ hvalue hmem =>
      have hword : (String.ofList word.chars).toList = word.chars := String.toList_ofList
      rw [hvalue, Value.chars_text, ← hword] at hfollows
      exact ⟨quote, _, post, hmem, hfollows⟩
    | order hother => exact absurd (hother.symm.trans hkey) (by decide)
    | shape _ hother => exact absurd (hother.symm.trans hkey) (by decide)
  order := by
    obtain ⟨e, he, hkey, post, hfollows⟩ := hs.exists_followsKey order_mem_keys
    cases hs.told e he with
    | kind _ _ hother => exact absurd (hother.symm.trans hkey) (by decide)
    | order _ hvalue =>
      rw [hvalue] at hfollows
      exact ⟨post, hfollows⟩
    | shape _ hother => exact absurd (hother.symm.trans hkey) (by decide)
  shape := by
    obtain ⟨e, he, hkey, post, hfollows⟩ := hs.exists_followsKey shape_mem_keys
    cases hs.told e he with
    | kind _ _ hother => exact absurd (hother.symm.trans hkey) (by decide)
    | order hother => exact absurd (hother.symm.trans hkey) (by decide)
    | shape t _ hvalue hlegal hshape =>
      refine ⟨t.inner, post, t.bracket_not_mem_inner,
        t.spellsShape_iff.mpr ⟨hlegal, hshape, hdims⟩, ?_⟩
      rw [hvalue, Value.chars_tuple, List.cons_append, List.append_assoc] at hfollows
      exact hfollows
  rank := hrank
  count := ⟨count, hcount⟩

end Dictionary.Spells

/-! ## A legible dictionary of three entries is spelled -/

theorem Legible.exists_value (hlegible : Legible text h) (hname : name ∈ keys) :
    ∃ value, FollowsKey name.toList text value := by
  obtain ⟨quote, found, rest, -, hkind⟩ := hlegible.kind
  obtain ⟨after, horder⟩ := hlegible.order
  obtain ⟨inner, behind, -, -, hshape⟩ := hlegible.shape
  simp only [keys, List.mem_cons, List.not_mem_nil, or_false] at hname
  rcases hname with hname | hname | hname
  · exact ⟨_, hname ▸ hkind⟩
  · exact ⟨_, hname ▸ horder⟩
  · exact ⟨_, hname ▸ hshape⟩

/-- Three entries that are found by the three keys have no other keys. -/
theorem Legible.listed (hlegible : Legible d.chars h) (hthree : d.entries.length = 3) :
    d.Listed := by
  have hsub : keys.map String.toList ⊆ d.entries.map fun e => e.key.chars := by
    intro key hkey
    obtain ⟨name, hname, heq⟩ := List.mem_map.mp hkey
    obtain ⟨value, hfollows⟩ := hlegible.exists_value hname
    obtain ⟨e, he, hkeyed, -⟩ :=
      Dictionary.value_of_followsKey (plain_of_mem_keys hname) hfollows
    exact List.mem_map.mpr ⟨e, he, hkeyed.trans heq⟩
  have hlength : (d.entries.map fun e => e.key.chars).length ≤ (keys.map String.toList).length := by
    rw [List.length_map, hthree]
    decide
  exact ((nodup_keys.subperm hsub).perm_of_length_le hlength).symm

/-- What the reader takes for the values of three entries are their values, whole. -/
theorem Legible.spells (hlegible : Legible d.chars h) (hthree : d.entries.length = 3) :
    d.Spells h := by
  have hlisted : d.Listed := hlegible.listed hthree
  refine ⟨hlisted, fun e he => ?_⟩
  obtain ⟨key, hname, hkey⟩ := List.mem_map.mp (hlisted.mem_iff.mp (List.mem_map_of_mem he))
  have hvalue : ∀ {value}, FollowsKey key.toList d.chars value →
      ∃ post, value = e.value.chars ++ post :=
    fun hfollows => hlisted.value_of_followsKey he hname hkey.symm hfollows
  simp only [keys, List.mem_cons, List.not_mem_nil, or_false] at hname
  rcases hname with hname | hname | hname <;> rw [hname] at hkey hvalue
  · obtain ⟨quote, name, rest, hmem, hfollows⟩ := hlegible.kind
    obtain ⟨post, heq⟩ := hvalue hfollows
    obtain ⟨word, htext, hword⟩ := Value.eq_text (quote_not_mem_descriptors quote hmem) heq.symm
    refine .kind quote word hkey.symm htext ?_
    rwa [hword, String.ofList_toList]
  · obtain ⟨rest, hfollows⟩ := hlegible.order
    obtain ⟨post, heq⟩ := hvalue hfollows
    exact .order hkey.symm (Value.eq_false heq.symm)
  · obtain ⟨inner, rest, hclosed, hspells, hfollows⟩ := hlegible.shape
    obtain ⟨post, heq⟩ := hvalue hfollows
    obtain ⟨t, htuple, hinner⟩ := Value.eq_tuple hclosed heq.symm
    rw [← hinner] at hspells
    obtain ⟨hlegal, hshape, -⟩ := t.spellsShape_iff.mp hspells
    exact .shape t hkey.symm htuple hlegal hshape

/-! ## Words of a spelled header -/

/-- A word without marks that is found in a spelled header is a key or names the element type. -/
theorem Dictionary.Spells.word_of_found (hs : d.Spells h) {word found : List Char}
    (hword : Plain word) (hfound : after? (quote.around word) d.chars = some found) :
    word ∈ keys.map String.toList ∨ String.ofList word ∈ descriptors h.kind := by
  obtain ⟨e, he, behind, post, hholds, -, -⟩ := Dictionary.after?_chars hword hfound
  cases hholds with
  | key _ hkey => exact .inl (hs.listed.mem_iff.mp (List.mem_map.mpr ⟨e, he, hkey⟩))
  | value text hvalue hchars => exact .inr (hchars ▸ (hs.told e he).descriptor hvalue)

end NetTrial.Npy
