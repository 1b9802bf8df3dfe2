import NetTrial.Proofs.HeaderFields
import NetTrial.Proofs.Paths
/-!
# Dictionary literals

A dictionary literal is a tree: entries of a quoted key and a value between braces, where a value
is a quoted word, a constant, a number or a tuple of numbers, with blanks between all of them and
commas where they belong. A tree of the three keys whose values are those of a header spells the
header. A tuple of numbers spells its shape also by the reader's account, which cuts the text at
its commas.
-/

namespace NetTrial.Npy

open Number Text Json

/-! ## Trees and their texts -/

/-- Whether a text holds no quote of either kind. -/
def Unquoted (cs : List Char) : Prop := ∀ quote : Quote, quote.char ∉ cs

theorem unquoted_iff {cs : List Char} : Unquoted cs ↔ '\'' ∉ cs ∧ '"' ∉ cs := by
  constructor
  · intro h
    exact ⟨h .single, h .double⟩
  · rintro ⟨hsingle, hdouble⟩ quote
    cases quote with
    | single => exact hsingle
    | double => exact hdouble

/-- Characters that can stand between quotes. -/
structure Word where
  /-- The characters. -/
  chars : List Char
  /-- None of them is a quote. -/
  unquoted : Unquoted chars

/-- Pieces with a comma in front of each but the first. -/
def separated (first : List Char) (pieces : List (List Char)) : List Char :=
  first ++ pieces.flatMap fun piece => ',' :: piece

/-- The piece behind a closing comma, if there is such a comma. -/
def closing (close : Option Blanks) : List (List Char) := (close.map Blanks.chars).toList

/-- An unsigned decimal numeral and the blanks around it. -/
structure Numeral where
  /-- The blanks in front of it. -/
  before : Blanks
  /-- Its first digit. -/
  first : Fin 10
  /-- Its other digits. -/
  more : List (Fin 10)
  /-- The blanks behind it. -/
  after : Blanks

namespace Numeral

/-- The digits as text. -/
def digits (n : Numeral) : List Char := (n.first :: n.more).map digitOf

/-- The number. -/
def value (n : Numeral) : Nat := natOfDigits (n.first :: n.more)

/-- The text. -/
def chars (n : Numeral) : List Char := n.before.chars ++ n.digits ++ n.after.chars

end Numeral

/-- A tuple of unsigned decimal numerals. -/
inductive Tuple where
  /-- The tuple of no numerals. -/
  | empty (blanks : Blanks)
  /-- The tuple of one or more numerals, with or without a comma at the end. -/
  | numerals (first : Numeral) (more : List Numeral) (close : Option Blanks)

namespace Tuple

/-- The numerals of a tuple. -/
def list : Tuple → List Numeral
  | .empty _ => []
  | .numerals first more _ => first :: more

/-- The shape that a tuple spells. -/
def shape (t : Tuple) : Shape := t.list.map Numeral.value

/-- What stands between the brackets. -/
def inner : Tuple → List Char
  | .empty blanks => blanks.chars
  | .numerals first more close =>
    separated first.chars (more.map Numeral.chars ++ closing close)

/-- Whether a single numeral is followed by a comma; without one the brackets are no tuple. -/
def Legal : Tuple → Prop
  | .numerals _ [] close => close.isSome = true
  | _ => True

end Tuple

/-- A value of an entry. -/
inductive Value where
  /-- A word in quotes. -/
  | text (quote : Quote) (word : Word)
  /-- `True` or `False`. -/
  | truth (holds : Bool)
  /-- `None`. -/
  | nothing
  /-- A number. -/
  | number (first : Fin 10) (more : List (Fin 10))
  /-- A tuple in brackets. -/
  | tuple (t : Tuple)

/-- The text of a value. -/
def Value.chars : Value → List Char
  | .text quote word => quote.around word.chars
  | .truth true => "True".toList
  | .truth false => "False".toList
  | .nothing => "None".toList
  | .number first more => (first :: more).map digitOf
  | .tuple t => '(' :: (t.inner ++ [')'])

theorem Value.chars_text (quote : Quote) (word : Word) :
    (text quote word).chars = quote.around word.chars := rfl

theorem Value.chars_tuple (t : Tuple) : (tuple t).chars = '(' :: (t.inner ++ [')']) := rfl

/-- A key and its value, with blanks around the key, the colon and the value. -/
structure Entry where
  /-- The blanks in front of the key. -/
  lead : Blanks
  /-- The quotes of the key. -/
  quote : Quote
  /-- The key. -/
  key : Word
  /-- The blanks in front of the colon. -/
  before : Blanks
  /-- The blanks behind the colon. -/
  after : Blanks
  /-- The value. -/
  value : Value
  /-- The blanks behind the value. -/
  trail : Blanks

namespace Entry

/-- The text behind the key. -/
def afterKey (e : Entry) : List Char :=
  e.before.chars ++ ':' :: (e.after.chars ++ (e.value.chars ++ e.trail.chars))

/-- The text of an entry. -/
def chars (e : Entry) : List Char := e.lead.chars ++ (e.quote.around e.key.chars ++ e.afterKey)

end Entry

/-- A dictionary of one or more entries, with or without a comma at the end. -/
structure Dictionary where
  /-- The first entry. -/
  first : Entry
  /-- The other entries. -/
  more : List Entry
  /-- The blanks behind a closing comma. -/
  close : Option Blanks

namespace Dictionary

/-- The entries in their order. -/
def entries (d : Dictionary) : List Entry := d.first :: d.more

/-- What stands between the braces. -/
def inner (d : Dictionary) : List Char :=
  separated d.first.chars (d.more.map Entry.chars ++ closing d.close)

/-- The text of a dictionary. -/
def chars (d : Dictionary) : List Char := '\x7b' :: (d.inner ++ ['\x7d'])

end Dictionary

/-! ## Headers that trees spell -/

/-- What the entry of a key has to say of a header: the element type by one of its names, that the
elements are not in column-major order, the shape. -/
inductive Entry.Tells (h : Header) (e : Entry) : Prop where
  /-- The element type. -/
  | kind (quote : Quote) (word : Word) :
      e.key.chars = "descr".toList → e.value = .text quote word →
      String.ofList word.chars ∈ descriptors h.kind → e.Tells h
  /-- The order of the elements. -/
  | order : e.key.chars = "fortran_order".toList → e.value = .truth false → e.Tells h
  /-- The shape. -/
  | shape (t : Tuple) :
      e.key.chars = "shape".toList → e.value = .tuple t → t.Legal → t.shape = h.shape → e.Tells h

/-- Whether the keys of a dictionary are the three keys, each of them once, in any order. -/
def Dictionary.Listed (d : Dictionary) : Prop :=
  (d.entries.map fun e => e.key.chars).Perm (keys.map String.toList)

/-- Whether a dictionary spells a header: its keys are the three keys, and every entry says
what the header is. -/
structure Dictionary.Spells (d : Dictionary) (h : Header) : Prop where
  /-- The keys. -/
  listed : d.Listed
  /-- What they are told to be. -/
  told : ∀ e ∈ d.entries, e.Tells h

/-! ## Tuples -/

variable {h : Header} {key rest cs : List Char} {quote : Quote}

theorem digitOf_inj : ∀ d e : Fin 10, digitOf d = digitOf e → d = e := by decide

theorem digitOf_not_blank : ∀ d, isBlank (digitOf d) = false := by decide

theorem unquoted_digits (ds : List (Fin 10)) : Unquoted (ds.map digitOf) := by
  have hdigit : ∀ d, digitOf d ≠ '\'' ∧ digitOf d ≠ '"' := by decide
  rw [unquoted_iff, List.mem_map, List.mem_map]
  constructor
  · rintro ⟨d, -, hd⟩
    exact (hdigit d).1 hd
  · rintro ⟨d, -, hd⟩
    exact (hdigit d).2 hd

theorem Numeral.digits_not_blank (n : Numeral) : ∀ c ∈ n.digits, isBlank c = false := by
  intro c hc
  obtain ⟨d, -, hd⟩ := List.mem_map.mp hc
  rw [← hd, digitOf_not_blank]

/-- A numeral spells its number, if that is a word. -/
theorem Numeral.spellsDimension_iff (n : Numeral) {d : Nat} :
    SpellsDimension n.digits d ↔ n.value = d ∧ n.value < wordLimit := by
  have hsign : ∀ d, digitOf d ≠ '+' := by decide
  constructor
  · rintro (⟨ds, -, hdigits, hvalue, hlt⟩ | ⟨digits, hplus, -⟩)
    · have hds : n.first :: n.more = ds := List.map_injective_iff.mpr digitOf_inj hdigits
      rw [Numeral.value, hds, hvalue]
      exact ⟨rfl, hlt⟩
    · exact absurd (List.cons.inj hplus).1 (hsign n.first)
  · rintro ⟨hvalue, hlt⟩
    exact .inl ⟨n.first :: n.more, List.cons_ne_nil _ _, rfl, hvalue, hvalue ▸ hlt⟩

theorem Numeral.trimChars_chars (n : Numeral) : trimChars n.chars = n.digits :=
  trimChars_around n.before n.after n.digits_not_blank

/-- What a numeral is written with. -/
theorem Numeral.mem_chars {n : Numeral} {c : Char} (hc : c ∈ n.chars) :
    isBlank c = true ∨ ∃ d, c = digitOf d := by
  rw [Numeral.chars, List.mem_append, List.mem_append] at hc
  rcases hc with (hc | hc) | hc
  · exact .inl (n.before.blank c hc)
  · obtain ⟨d, -, hd⟩ := List.mem_map.mp hc
    exact .inr ⟨d, hd.symm⟩
  · exact .inl (n.after.blank c hc)

theorem comma_not_mem_blanks (blanks : Blanks) : ',' ∉ blanks.chars := fun hmem =>
  absurd (blanks.blank ',' hmem) (by decide)

theorem mem_closing {close : Option Blanks} {piece : List Char} (h : piece ∈ closing close) :
    ∀ c ∈ piece, isBlank c = true := by
  rw [closing, Option.mem_toList, Option.map_eq_some_iff] at h
  obtain ⟨blanks, -, hpiece⟩ := h
  rw [← hpiece]
  exact blanks.blank

theorem mem_separated {first : List Char} {pieces : List (List Char)} {c : Char}
    (h : c ∈ separated first pieces) : c ∈ first ∨ c = ',' ∨ ∃ piece ∈ pieces, c ∈ piece := by
  rw [separated, List.mem_append, List.mem_flatMap] at h
  rcases h with h | ⟨piece, hpiece, h⟩
  · exact .inl h
  · rcases List.mem_cons.mp h with h | h
    · exact .inr (.inl h)
    · exact .inr (.inr ⟨piece, hpiece, h⟩)

/-- What stands between the brackets of a tuple. -/
theorem Tuple.mem_inner {t : Tuple} {c : Char} (hc : c ∈ t.inner) :
    isBlank c = true ∨ c = ',' ∨ ∃ d, c = digitOf d := by
  cases t with
  | empty blanks => exact .inl (blanks.blank c hc)
  | numerals first more close =>
    have hnumeral : ∀ n : Numeral, c ∈ n.chars → isBlank c = true ∨ c = ',' ∨ ∃ d, c = digitOf d :=
      fun n hn => (Numeral.mem_chars hn).imp_right .inr
    rcases mem_separated hc with hc | hc | ⟨piece, hpiece, hc⟩
    · exact hnumeral first hc
    · exact .inr (.inl hc)
    · rcases List.mem_append.mp hpiece with hpiece | hpiece
      · obtain ⟨n, -, hn⟩ := List.mem_map.mp hpiece
        exact hnumeral n (hn ▸ hc)
      · exact .inl (mem_closing hpiece c hc)

theorem Tuple.bracket_not_mem_inner (t : Tuple) : ')' ∉ t.inner := by
  have hdigit : ∀ d, ')' ≠ digitOf d := by decide
  intro hmem
  rcases Tuple.mem_inner hmem with hblank | hcomma | ⟨d, hd⟩
  · exact absurd hblank (by decide)
  · exact absurd hcomma (by decide)
  · exact hdigit d hd

theorem Tuple.unquoted_inner (t : Tuple) : Unquoted t.inner := by
  intro quote hmem
  rcases Tuple.mem_inner hmem with hblank | hcomma | ⟨d, hd⟩
  · rw [quote.not_blank] at hblank
    cases hblank
  · cases quote <;> exact absurd hcomma (by decide)
  · exact unquoted_digits [d] quote (List.mem_singleton.mpr hd)

theorem Numeral.comma_not_mem (n : Numeral) : ',' ∉ n.chars := by
  have hdigit : ∀ d, ',' ≠ digitOf d := by decide
  intro hmem
  rcases Numeral.mem_chars hmem with hblank | ⟨d, hd⟩
  · exact absurd hblank (by decide)
  · exact hdigit d hd

/-- The entries of a tuple are the digits of its numerals. -/
theorem Tuple.tupleEntries_inner (t : Tuple) :
    tupleEntries t.inner = t.list.map Numeral.digits := by
  have hblank : ∀ blanks : Blanks, trimChars blanks.chars = [] := by
    intro blanks
    have hnone : ∀ c ∈ ([] : List Char), isBlank c = false := fun c hc => by cases hc
    have htrim := trimChars_around blanks ⟨[], fun c hc => by cases hc⟩ hnone
    rwa [List.append_nil, List.append_nil] at htrim
  have hfull : ∀ n : Numeral, n.digits.isEmpty = false := fun n => rfl
  rw [tupleEntries]
  cases t with
  | empty blanks =>
    rw [inner, splitOn_of_not_mem (comma_not_mem_blanks blanks), List.map_singleton, hblank]
    rfl
  | numerals first more close =>
    have hpieces : ∀ piece ∈ more.map Numeral.chars ++ closing close, ',' ∉ piece := by
      intro piece hpiece hmem
      rcases List.mem_append.mp hpiece with hpiece | hpiece
      · obtain ⟨n, -, hn⟩ := List.mem_map.mp hpiece
        exact n.comma_not_mem (hn ▸ hmem)
      · exact absurd (mem_closing hpiece ',' hmem) (by decide)
    have htrim : (trimChars ∘ Numeral.chars) = Numeral.digits := by
      funext n
      exact n.trimChars_chars
    have hclose : ((closing close).map trimChars).filter (!·.isEmpty) = [] := by
      cases close with
      | none => rfl
      | some blanks =>
        rw [closing, Option.map_some, Option.toList_some, List.map_singleton, hblank]
        rfl
    have hkept : (more.map Numeral.digits).filter (!·.isEmpty) = more.map Numeral.digits := by
      rw [List.filter_eq_self]
      intro digits hdigits
      obtain ⟨n, -, hn⟩ := List.mem_map.mp hdigits
      rw [← hn, hfull]
      rfl
    rw [inner, separated, splitOn_flatMap first.comma_not_mem hpieces, List.map_cons,
      List.map_append, List.map_map, htrim, first.trimChars_chars, List.filter_cons,
      List.filter_append, hclose, hkept, hfull, List.append_nil]
    rfl

/-- Numerals spell their numbers, if these are words. -/
theorem spellsDimensions_iff {numerals : List Numeral} {shape : Shape} :
    List.Forall₂ SpellsDimension (numerals.map Numeral.digits) shape ↔
      numerals.map Numeral.value = shape ∧ ∀ d ∈ shape, d < wordLimit := by
  rw [List.forall₂_map_left_iff]
  simp only [Numeral.spellsDimension_iff]
  induction numerals generalizing shape with
  | nil =>
    rw [List.forall₂_nil_left_iff]
    exact ⟨fun hs => by rw [hs]; simp, fun hs => hs.1.symm⟩
  | cons n numerals ih =>
    rw [List.forall₂_cons_left_iff]
    constructor
    · rintro ⟨d, ds, ⟨hvalue, hlt⟩, hds, hshape⟩
      obtain ⟨hvalues, hall⟩ := ih.mp hds
      refine ⟨by rw [hshape, List.map_cons, hvalue, hvalues], fun e he => ?_⟩
      rw [hshape] at he
      rcases List.mem_cons.mp he with he | he
      · rw [he, ← hvalue]
        exact hlt
      · exact hall e he
    · rintro ⟨hshape, hall⟩
      rw [List.map_cons] at hshape
      have hn : n.value < wordLimit := hall n.value (by rw [← hshape]; exact List.mem_cons_self)
      have hrest : ∀ e ∈ numerals.map Numeral.value, e < wordLimit := fun e he =>
        hall e (by rw [← hshape]; exact List.mem_cons_of_mem _ he)
      exact ⟨n.value, numerals.map Numeral.value, ⟨rfl, hn⟩, ih.mpr ⟨rfl, hrest⟩, hshape.symm⟩

/-- A tuple is legal when a single dimension comes with a comma. -/
theorem Tuple.legal_iff (t : Tuple) : t.Legal ↔ (t.shape.length = 1 → ',' ∈ t.inner) := by
  rw [Tuple.shape, List.length_map]
  cases t with
  | empty blanks => simp [Tuple.list, Tuple.Legal]
  | numerals first more close =>
    cases more with
    | cons second more => simp [Tuple.list, Tuple.Legal]
    | nil =>
      cases close with
      | none =>
        simp [Tuple.list, Tuple.Legal, Tuple.inner, separated, closing, first.comma_not_mem]
      | some blanks => simp [Tuple.list, Tuple.Legal, Tuple.inner, separated, closing]

/-- A tuple of numerals spells its own shape, if its dimensions are words and a single one is
followed by a comma. -/
theorem Tuple.spellsShape_iff (t : Tuple) {shape : Shape} :
    SpellsShape t.inner shape ↔ t.Legal ∧ t.shape = shape ∧ ∀ d ∈ shape, d < wordLimit := by
  rw [SpellsShape, Tuple.tupleEntries_inner, spellsDimensions_iff, Tuple.legal_iff]
  constructor
  · rintro ⟨⟨hshape, hall⟩, hsingle⟩
    exact ⟨fun hlength => hsingle (hshape ▸ hlength), hshape, hall⟩
  · rintro ⟨hlegal, hshape, hall⟩
    exact ⟨⟨hshape, hall⟩, fun hlength => hlegal (hshape ▸ hlength)⟩

end NetTrial.Npy
