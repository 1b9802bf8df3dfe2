import Mathlib.Data.List.Forall2
import NetTrial.Proofs.Digits
import NetTrial.Proofs.Searching
import NetTrial.Proofs.TensorFiles
/-!
# What the header reader accepts

Each part of the reader is said here without the reader: a quoted value is a text between two
quotes of one kind, a dimension is digits that may have a plus sign, a tuple is cut at its
commas, the value of a key follows the first occurrence of the key and its colon. Together they
say exactly which files are read, and as what.
-/

namespace NetTrial.Npy

open Number Text Json

variable {bytes header body : Bytes} {h : Header} {text cs rest value word : List Char}

/-! ## Values -/

/-- The two kinds of quotes. -/
inductive Quote where
  /-- The apostrophe. -/
  | single
  /-- The quotation mark. -/
  | double
  deriving DecidableEq

namespace Quote

/-- The character of a quote. -/
def char : Quote → Char
  | .single => '\''
  | .double => '"'

/-- A word in quotes. -/
def around (quote : Quote) (word : List Char) : List Char := quote.char :: (word ++ [quote.char])

theorem char_inj {quote other : Quote} (h : other.char = quote.char) : other = quote := by
  revert h
  cases other <;> cases quote <;> decide

theorem not_blank (quote : Quote) : isBlank quote.char = false := by
  cases quote <;> decide

theorem exists_char {c : Char} : c = '\'' ∨ c = '"' ↔ ∃ quote : Quote, c = quote.char := by
  constructor
  · intro h
    cases h with
    | inl h => exact ⟨.single, h⟩
    | inr h => exact ⟨.double, h⟩
  · rintro ⟨quote, h⟩
    cases quote with
    | single => exact .inl h
    | double => exact .inr h

theorem around_append (quote : Quote) (word rest : List Char) :
    quote.around word ++ rest = quote.char :: (word ++ quote.char :: rest) := by
  simp [around]

end Quote

/-- A quoted value is a word between two quotes of one kind. -/
theorem quotedValue_eq_ok_iff {name : String} :
    quotedValue value = .ok name ↔
      ∃ quote : Quote, ∃ rest, value = quote.around name.toList ++ rest ∧
        quote.char ∉ name.toList := by
  cases value with
  | nil =>
    constructor
    · intro h
      cases h
    · rintro ⟨quote, rest, hvalue, _⟩
      rw [Quote.around_append] at hvalue
      cases hvalue
  | cons c tail =>
    rw [quotedValue]
    constructor
    · intro h
      split at h
      · next hquote =>
        obtain ⟨quote, hc⟩ := Quote.exists_char.mp hquote
        split at h
        · next hcontains =>
          have hname := Except.ok.inj h
          obtain ⟨hclosed, rest, htail⟩ := cut_iff.mp ⟨hcontains, rfl⟩
          rw [← hname, String.toList_ofList]
          refine ⟨quote, rest, ?_, hc ▸ hclosed⟩
          rw [Quote.around_append, ← hc, ← htail]
        · cases h
      · cases h
    · rintro ⟨quote, rest, hvalue, hclosed⟩
      rw [Quote.around_append, List.cons.injEq] at hvalue
      obtain ⟨hc, htail⟩ := hvalue
      rw [← hc] at hclosed htail
      obtain ⟨hcontains, htake⟩ := cut_iff.mpr ⟨hclosed, rest, htail⟩
      rw [if_pos (Quote.exists_char.mpr ⟨quote, hc⟩), if_pos hcontains, htake, String.ofList_toList]

/-- The names of an element type. -/
def descriptors : ElementType → List String
  | .f32 => ["<f4"]
  | .u8 => ["|u1", "<u1"]

theorem ofDescriptor_eq_ok_iff {name : String} {kind : ElementType} :
    ofDescriptor name = .ok kind ↔ name ∈ descriptors kind := by
  rw [ofDescriptor]
  by_cases hbyte : name = "|u1" ∨ name = "<u1"
  · rw [if_pos hbyte]
    cases kind with
    | f32 =>
      have hne : name ∉ descriptors .f32 := by
        intro hmem
        rw [List.mem_singleton.mp hmem] at hbyte
        exact absurd hbyte (by decide)
      simp [hne]
    | u8 => simpa [descriptors] using hbyte
  · rw [if_neg hbyte]
    by_cases hword : name = "<f4"
    · rw [if_pos hword, hword]
      cases kind <;> simp [descriptors]
    · rw [if_neg hword]
      cases kind <;> simp_all [descriptors]

/-! ## Dimensions -/

theorem digitValue?_digitOf (d : Fin 10) : digitValue? (digitOf d) = some d.val := by
  revert d
  decide

theorem digitValue?_eq_some_iff {c : Char} {n : Nat} :
    digitValue? c = some n ↔ ∃ d : Fin 10, c = digitOf d ∧ d.val = n := by
  constructor
  · intro h
    rw [digitValue?] at h
    split at h
    · next hrange =>
      have hvalue : c.toNat - '0'.toNat = n := Option.some.inj h
      have hlow : '0'.toNat ≤ c.toNat := hrange.1
      have hhigh : c.toNat ≤ '9'.toNat := hrange.2
      have hten : n < 10 := by
        have hends : '0'.toNat = 48 ∧ '9'.toNat = 57 := ⟨rfl, rfl⟩
        omega
      refine ⟨⟨n, hten⟩, ?_, rfl⟩
      have hback : ∀ d : Fin 10, Char.ofNat (d.val + 48) = digitOf d := by decide
      rw [← hback, ← Char.ofNat_toNat c]
      congr 1
      have hzero : '0'.toNat = 48 := rfl
      change c.toNat = n + 48
      omega
    · cases h
  · rintro ⟨d, hc, hn⟩
    rw [hc, digitValue?_digitOf, hn]

theorem numberFrom?_map (ds : List (Fin 10)) (acc : Nat) :
    numberFrom? acc (ds.map digitOf) = some (ds.foldl (fun n d => n * 10 + d.val) acc) := by
  induction ds generalizing acc with
  | nil => rfl
  | cons d ds ih =>
    rw [List.map_cons, numberFrom?, digitValue?_digitOf]
    exact ih _

theorem numberFrom?_eq_some_iff {acc n : Nat} :
    numberFrom? acc cs = some n ↔
      ∃ ds : List (Fin 10), cs = ds.map digitOf ∧
        ds.foldl (fun n d => n * 10 + d.val) acc = n := by
  constructor
  · intro h
    induction cs generalizing acc with
    | nil => exact ⟨[], rfl, Option.some.inj h⟩
    | cons c cs ih =>
      rw [numberFrom?] at h
      obtain ⟨v, hv, h⟩ := Option.bind_eq_some_iff.mp h
      obtain ⟨d, hc, hd⟩ := (digitValue?_eq_some_iff).mp hv
      obtain ⟨ds, hcs, hn⟩ := ih h
      exact ⟨d :: ds, by rw [hc, hcs]; rfl, by rw [List.foldl_cons, hd, hn]⟩
  · rintro ⟨ds, hcs, hn⟩
    rw [hcs, numberFrom?_map, hn]

/-- Digits of a number that is a word. -/
def SpellsNumber (cs : List Char) (d : Nat) : Prop :=
  ∃ ds : List (Fin 10), ds ≠ [] ∧ cs = ds.map digitOf ∧ natOfDigits ds = d ∧ d < wordLimit

/-- Digits of a number, with or without a plus sign. -/
def SpellsDimension (token : List Char) (d : Nat) : Prop :=
  SpellsNumber token d ∨ ∃ digits, token = '+' :: digits ∧ SpellsNumber digits d

theorem number_eq_some_iff {d : Nat} :
    (if cs.isEmpty = true then none else (numberFrom? 0 cs).filter (· < wordLimit)) = some d ↔
      SpellsNumber cs d := by
  constructor
  · intro h
    split at h
    · cases h
    · next hne =>
      obtain ⟨hnumber, hlt⟩ := Option.filter_eq_some_iff.mp h
      obtain ⟨ds, hcs, hvalue⟩ := (numberFrom?_eq_some_iff).mp hnumber
      refine ⟨ds, ?_, hcs, hvalue, of_decide_eq_true hlt⟩
      intro hnil
      rw [hcs, hnil] at hne
      exact hne rfl
  · rintro ⟨ds, hne, hcs, hvalue, hlt⟩
    have hnumber : numberFrom? 0 cs = some d := (numberFrom?_eq_some_iff).mpr ⟨ds, hcs, hvalue⟩
    rw [hcs, List.isEmpty_map, List.isEmpty_eq_false_iff.mpr hne, ← hcs, hnumber]
    simp [hlt]

/-- A number has no sign. -/
theorem SpellsNumber.unsigned {d : Nat} (h : SpellsNumber cs d) (rest : List Char) :
    cs ≠ '+' :: rest := by
  have hsign : ∀ d, digitOf d ≠ '+' := by decide
  obtain ⟨ds, hne, hcs, -⟩ := h
  intro hplus
  rw [hcs] at hplus
  cases ds with
  | nil => exact hne rfl
  | cons first ds => exact hsign first (List.cons.inj hplus).1

theorem dimension?_eq_some_iff {token : List Char} {d : Nat} :
    dimension? token = some d ↔ SpellsDimension token d := by
  unfold dimension?
  split
  · next rest =>
    rw [number_eq_some_iff]
    constructor
    · intro h
      exact .inr ⟨rest, rfl, h⟩
    · rintro (h | ⟨digits, htoken, h⟩)
      · exact absurd rfl (h.unsigned rest)
      · exact (List.cons.inj htoken).2 ▸ h
  · next hplus =>
    rw [number_eq_some_iff]
    constructor
    · exact .inl
    · rintro (h | ⟨digits, htoken, -⟩)
      · exact h
      · exact absurd htoken (hplus digits)

theorem mapM_eq_some_iff {α β : Type} {f : α → Option β} {l : List α} {r : List β} :
    l.mapM f = some r ↔ List.Forall₂ (fun a b => f a = some b) l r := by
  induction l generalizing r with
  | nil =>
    rw [List.forall₂_nil_left_iff]
    exact ⟨fun h => (Option.some.inj h).symm, fun h => by rw [h]; rfl⟩
  | cons a l ih =>
    rw [List.mapM_cons, List.forall₂_cons_left_iff]
    constructor
    · intro h
      obtain ⟨b, hb, h⟩ := Option.bind_eq_some_iff.mp h
      obtain ⟨bs, hbs, h⟩ := Option.bind_eq_some_iff.mp h
      exact ⟨b, bs, hb, ih.mp hbs, (Option.some.inj h).symm⟩
    · rintro ⟨b, bs, hb, hbs, hr⟩
      rw [hb, ih.mpr hbs, hr]
      rfl

/-- What stands between the brackets of a tuple spells a shape: the entries between its commas
that are not blank are the dimensions, and a single one is followed by a comma. -/
def SpellsShape (inner : List Char) (shape : Shape) : Prop :=
  List.Forall₂ SpellsDimension (tupleEntries inner) shape ∧ (shape.length = 1 → ',' ∈ inner)

/-- A tuple ends at its first closing bracket. -/
theorem shapeOf_eq_ok_iff {shape : Shape} :
    shapeOf value = .ok shape ↔
      ∃ inner rest, value = '(' :: (inner ++ ')' :: rest) ∧ ')' ∉ inner ∧
        SpellsShape inner shape := by
  have hspells : ∀ inner, SpellsShape inner shape ↔
      (tupleEntries inner).mapM dimension? = some shape ∧ (shape.length = 1 → ',' ∈ inner) := by
    intro inner
    rw [mapM_eq_some_iff, SpellsShape]
    simp only [dimension?_eq_some_iff]
  rw [shapeOf.eq_def]
  split
  · next cs =>
    constructor
    · intro h
      split at h
      · next hcontains =>
        obtain ⟨hclosed, rest, hcs⟩ := cut_iff.mp ⟨hcontains, rfl⟩
        refine ⟨cs.takeWhile (· != ')'), rest, by rw [← hcs], hclosed, (hspells _).mpr ?_⟩
        simp only at h
        split at h
        · cases h
        · next spelled hmap =>
          split at h
          · cases h
          · next hcomma =>
            have hshape := Except.ok.inj h
            rw [← hshape]
            refine ⟨hmap, fun hlength => ?_⟩
            have hc : ¬ ¬ (cs.takeWhile (· != ')')).contains ',' = true := fun hn =>
              hcomma ⟨hlength, hn⟩
            exact List.contains_iff_mem.mp (not_not.mp hc)
      · cases h
    · rintro ⟨inner, rest, hvalue, hclosed, hinner⟩
      obtain ⟨hcontains, htake⟩ := cut_iff.mpr ⟨hclosed, rest, (List.cons.inj hvalue).2⟩
      obtain ⟨hmap, hcomma⟩ := (hspells inner).mp hinner
      have hsingle : ¬ (shape.length = 1 ∧ ¬ inner.contains ',' = true) := by
        rintro ⟨hlength, hn⟩
        exact hn (List.contains_iff_mem.mpr (hcomma hlength))
      rw [if_pos hcontains]
      simp only [htake, hmap, if_neg hsingle]
  · next hopen =>
    constructor
    · intro h
      cases h
    · rintro ⟨inner, rest, hvalue, _⟩
      exact absurd hvalue (hopen (inner ++ ')' :: rest))

/-! ## Keys -/

/-- Whether a value follows a key in a dictionary: behind the first occurrence of the key in
single quotes, or the first in double quotes when there is none in single ones, stand a colon and
the value, with or without blanks in front of each. -/
def FollowsKey (key dictionary value : List Char) : Prop :=
  ∃ quote : Quote, ∃ rest, StandsFirst (quote.around key) dictionary rest ∧
    (quote = .double → ¬ Quote.single.around key <:+: dictionary) ∧
    ∃ before after : Blanks, rest = before.chars ++ ':' :: (after.chars ++ value) ∧
      ∀ c ∈ value.head?, isBlank c = false

/-- A key is looked up in single quotes first. -/
theorem findKey_eq_some_iff {key : String} :
    ((quotedKeys key).findSome? fun word => after? word cs) = some rest ↔
      ∃ quote : Quote, StandsFirst (quote.around key.toList) cs rest ∧
        (quote = .double → ¬ Quote.single.around key.toList <:+: cs) := by
  have hquotes : (∃ quote : Quote, StandsFirst (quote.around key.toList) cs rest ∧
      (quote = .double → ¬ Quote.single.around key.toList <:+: cs)) ↔
      after? (Quote.single.around key.toList) cs = some rest ∨
        after? (Quote.single.around key.toList) cs = none ∧
          after? (Quote.double.around key.toList) cs = some rest := by
    constructor
    · rintro ⟨quote, hstands, hnone⟩
      cases quote with
      | single => exact .inl (after?_eq_some_iff.mpr hstands)
      | double => exact .inr ⟨after?_eq_none_iff.mpr (hnone rfl), after?_eq_some_iff.mpr hstands⟩
    · rintro (hsingle | ⟨hnone, hdouble⟩)
      · exact ⟨.single, after?_eq_some_iff.mp hsingle, fun h => by cases h⟩
      · exact ⟨.double, after?_eq_some_iff.mp hdouble, fun _ => after?_eq_none_iff.mp hnone⟩
  have hkeys : quotedKeys key = [Quote.single.around key.toList, Quote.double.around key.toList] :=
    rfl
  rw [hquotes, hkeys, List.findSome?_cons, List.findSome?_cons, List.findSome?_nil]
  cases after? (Quote.single.around key.toList) cs with
  | some found => simp
  | none =>
    cases after? (Quote.double.around key.toList) cs with
    | some found => simp
    | none => simp

/-- Behind a colon comes the value. -/
theorem dropBlanks_eq_colon_iff :
    (∃ tail, dropBlanks rest = ':' :: tail ∧ dropBlanks tail = value) ↔
      ∃ before after : Blanks, rest = before.chars ++ ':' :: (after.chars ++ value) ∧
        ∀ c ∈ value.head?, isBlank c = false := by
  have hcolon : isBlank ':' = false := by decide
  constructor
  · rintro ⟨tail, hrest, htail⟩
    obtain ⟨before, hbefore, -⟩ := exists_dropBlanks rest
    obtain ⟨after, hafter, hhead⟩ := exists_dropBlanks tail
    rw [htail] at hafter hhead
    rw [hrest, hafter] at hbefore
    exact ⟨before, after, hbefore, hhead⟩
  · rintro ⟨before, after, hrest, hhead⟩
    refine ⟨after.chars ++ value, ?_, ?_⟩
    · rw [hrest, dropBlanks_append, dropBlanks_cons hcolon]
    · rw [dropBlanks_append]
      cases value with
      | nil => rfl
      | cons c value => exact dropBlanks_cons (hhead c rfl) value

theorem valueAfter_eq_ok_iff {key : String} :
    valueAfter key cs = .ok value ↔ FollowsKey key.toList cs value := by
  have hfollows : FollowsKey key.toList cs value ↔
      ∃ rest, ((quotedKeys key).findSome? fun word => after? word cs) = some rest ∧
        ∃ tail, dropBlanks rest = ':' :: tail ∧ dropBlanks tail = value := by
    constructor
    · rintro ⟨quote, rest, hstands, hnone, hvalue⟩
      exact ⟨rest, (findKey_eq_some_iff).mpr ⟨quote, hstands, hnone⟩,
        (dropBlanks_eq_colon_iff).mpr hvalue⟩
    · rintro ⟨rest, hfound, hvalue⟩
      obtain ⟨quote, hstands, hnone⟩ := (findKey_eq_some_iff).mp hfound
      exact ⟨quote, rest, hstands, hnone, (dropBlanks_eq_colon_iff).mp hvalue⟩
  rw [hfollows, valueAfter]
  cases hfound : (quotedKeys key).findSome? fun word => after? word cs with
  | none => simp
  | some rest =>
    simp only [Option.some.injEq, exists_eq_left']
    split
    · next tail hrest =>
      rw [Except.ok.injEq]
      constructor
      · intro h
        exact ⟨tail, hrest, h⟩
      · rintro ⟨tail', hrest', htail⟩
        rw [hrest, List.cons.injEq] at hrest'
        rw [hrest'.2, htail]
    · next hcolon =>
      constructor
      · intro h
        cases h
      · rintro ⟨tail, hrest, _⟩
        exact absurd hrest (hcolon tail)

/-! ## The header text -/

/-- A dictionary that the reader takes for a header: it stands in braces, three of its pieces
between commas open with a key, and behind the keys stand the name of the element type, the word
`False` and a tuple that spells the shape. -/
structure Legible (dictionary : List Char) (h : Header) : Prop where
  /-- It opens with a brace and ends with one. -/
  braced : ∃ inner, dictionary = '\x7b' :: (inner ++ ['\x7d'])
  /-- Three pieces open with a key, whichever it is. -/
  counted : keyCount dictionary = 3
  /-- The name of the element type stands in quotes, whatever follows. -/
  kind : ∃ quote : Quote, ∃ name rest, name ∈ descriptors h.kind ∧
    FollowsKey "descr".toList dictionary (quote.around name.toList ++ rest)
  /-- The elements are not in column-major order; what follows the word does not matter. -/
  order : ∃ rest, FollowsKey "fortran_order".toList dictionary ("False".toList ++ rest)
  /-- The tuple ends at its first closing bracket, whatever follows. -/
  shape : ∃ inner rest, ')' ∉ inner ∧ SpellsShape inner h.shape ∧
    FollowsKey "shape".toList dictionary ('(' :: (inner ++ ')' :: rest))
  /-- There are not too many dimensions. -/
  rank : h.shape.length ≤ largestRank
  /-- The elements are counted. -/
  count : ∃ count, h.shape.elementCount = .ok count

theorem isBraced_iff : isBraced cs = true ↔ ∃ inner, cs = '\x7b' :: (inner ++ ['\x7d']) := by
  rw [isBraced, Bool.and_eq_true, beq_iff_eq, beq_iff_eq]
  constructor
  · rintro ⟨hhead, hlast⟩
    cases cs with
    | nil => cases hhead
    | cons c tail =>
      have hc : c = '\x7b' := Option.some.inj hhead
      rcases List.eq_nil_or_concat tail with hnil | ⟨inner, d, htail⟩
      · rw [hnil, hc] at hlast
        exact absurd hlast (by decide)
      · rw [List.concat_eq_append] at htail
        rw [htail, List.getLast?_cons, List.getLast?_concat, Option.getD_some] at hlast
        exact ⟨inner, by rw [hc, htail, Option.some.inj hlast]⟩
  · rintro ⟨inner, hcs⟩
    rw [hcs, ← List.cons_append, List.getLast?_concat]
    exact ⟨rfl, rfl⟩

theorem quote_not_mem_descriptors (quote : Quote) {kind : ElementType} {name : String}
    (h : name ∈ descriptors kind) : quote.char ∉ name.toList := by
  have hall : ∀ name ∈ ["<f4", "|u1", "<u1"], '\'' ∉ name.toList ∧ '"' ∉ name.toList := by decide
  have hname : name ∈ ["<f4", "|u1", "<u1"] := by
    cases kind <;> simp_all [descriptors]
  cases quote with
  | single => exact (hall name hname).1
  | double => exact (hall name hname).2

/-- What was read from a header is legible in its text, blanks at its end left out. -/
theorem legible_of_readHeader (hdecode : decodeChars? header = some text)
    (hread : readHeader header = .ok h) : Legible (dropTrailingBlanks text) h := by
  rw [readHeader, hdecode] at hread
  simp only [pure, Except.pure] at hread
  change (if ¬ isBraced (dropTrailingBlanks text) = true then _ else _) = _ at hread
  generalize dropTrailingBlanks text = dictionary at hread ⊢
  split at hread
  · cases hread
  next hbraced =>
  split at hread
  · cases hread
  next hcounted =>
  obtain ⟨quoted, hquoted, hread⟩ := bind_eq_ok_iff.mp hread
  obtain ⟨name, hname, hread⟩ := bind_eq_ok_iff.mp hread
  obtain ⟨kind, hkind, hread⟩ := bind_eq_ok_iff.mp hread
  obtain ⟨order, horder, hread⟩ := bind_eq_ok_iff.mp hread
  split at hread
  · cases hread
  split at hread
  · cases hread
  next hfalse =>
  obtain ⟨tuple, htuple, hread⟩ := bind_eq_ok_iff.mp hread
  obtain ⟨shape, hshape, hread⟩ := bind_eq_ok_iff.mp hread
  split at hread
  · cases hread
  next hrank =>
  obtain ⟨count, hcount, hread⟩ := bind_eq_ok_iff.mp hread
  have hheader : ⟨shape, kind⟩ = h := Except.ok.inj hread
  obtain ⟨quote, rest, hvalue, -⟩ := quotedValue_eq_ok_iff.mp hname
  obtain ⟨after, horder'⟩ := opensWith_iff.mp (not_not.mp hfalse)
  obtain ⟨inner, behind, htuple', hclosed, hspells⟩ := (shapeOf_eq_ok_iff).mp hshape
  rw [← hheader]
  exact
    { braced := (isBraced_iff).mp (not_not.mp hbraced)
      counted := not_not.mp hcounted
      kind := ⟨quote, name, rest, ofDescriptor_eq_ok_iff.mp hkind,
        hvalue ▸ (valueAfter_eq_ok_iff).mp hquoted⟩
      order := ⟨after, horder' ▸ (valueAfter_eq_ok_iff).mp horder⟩
      shape := ⟨inner, behind, hclosed, hspells, htuple' ▸ (valueAfter_eq_ok_iff).mp htuple⟩
      rank := Nat.not_lt.mp hrank
      count := by
        cases hcounts : shape.elementCount with
        | ok n => exact ⟨n, rfl⟩
        | error e =>
          rw [hcounts] at hcount
          cases hcount }

/-- What is legible in the text of a header is read from it. -/
theorem readHeader_of_legible (hdecode : decodeChars? header = some text)
    (hlegible : Legible (dropTrailingBlanks text) h) : readHeader header = .ok h := by
  rw [readHeader, hdecode]
  simp only [pure, Except.pure]
  change (if ¬ isBraced (dropTrailingBlanks text) = true then _ else _) = _
  generalize dropTrailingBlanks text = dictionary at hlegible ⊢
  obtain ⟨quote, name, rest, hmem, hkind⟩ := hlegible.kind
  obtain ⟨after, horder⟩ := hlegible.order
  obtain ⟨inner, behind, hclosed, hspells, hshape⟩ := hlegible.shape
  obtain ⟨count, hcount⟩ := hlegible.count
  have hname : quotedValue (quote.around name.toList ++ rest) = .ok name :=
    quotedValue_eq_ok_iff.mpr ⟨quote, rest, rfl, quote_not_mem_descriptors quote hmem⟩
  have htrue : opensWith "True".toList ("False".toList ++ after) = false := rfl
  have hfalse : opensWith "False".toList ("False".toList ++ after) = true :=
    opensWith_append _ _
  have htuple : shapeOf ('(' :: (inner ++ ')' :: behind)) = .ok h.shape :=
    (shapeOf_eq_ok_iff).mpr ⟨inner, behind, rfl, hclosed, hspells⟩
  have hkeys : keyCount dictionary = keys.length := hlegible.counted
  simp only [(isBraced_iff).mpr hlegible.braced, hkeys, (valueAfter_eq_ok_iff).mpr hkind, hname,
    ofDescriptor_eq_ok_iff.mpr hmem, (valueAfter_eq_ok_iff).mpr horder, htrue, hfalse,
    (valueAfter_eq_ok_iff).mpr hshape, htuple, hcount, Nat.not_lt.mpr hlegible.rank, bind,
    Except.bind, not_true, ne_eq, if_false, Bool.false_eq_true]
  rfl

theorem readHeader_eq_ok_iff :
    readHeader header = .ok h ↔
      ∃ text, decodeChars? header = some text ∧ Legible (dropTrailingBlanks text) h := by
  constructor
  · intro hread
    cases hdecode : decodeChars? header with
    | none =>
      rw [readHeader, hdecode] at hread
      cases hread
    | some text => exact ⟨text, rfl, legible_of_readHeader hdecode hread⟩
  · rintro ⟨text, hdecode, hlegible⟩
    exact readHeader_of_legible hdecode hlegible

/-! ## The file -/

/-- How many bytes the length of a header takes in a version. -/
def fieldWidth (major : UInt8) : Nat := if major = 1 then 2 else 4

/-- A file that opens with the fixed bytes, a version and the length of a header, and goes on
with the header and a body. -/
structure Framed (bytes header body : Bytes) : Prop where
  /-- The version says how many bytes the length takes. -/
  laid : ∃ (major : UInt8) (field : Bytes), bytes = magic ++ [major, 0] ++ field ++ header ++ body ∧
    (major = 1 ∨ major = 2 ∨ major = 3) ∧ field.length = fieldWidth major ∧
    littleEndian field = header.length
  /-- There is a header. -/
  nonempty : header ≠ []
  /-- It is within its budget. -/
  budget : header.length ≤ longestHeader

theorem version_eq_ok_iff {major minor : Nat} :
    version bytes = .ok (major, minor) ↔
      ∃ (b : UInt8) (rest : Bytes), bytes = magic ++ [b, 0] ++ rest ∧
        (b = 1 ∨ b = 2 ∨ b = 3) ∧ major = b.toNat ∧ minor = 0 := by
  constructor
  · intro hversion
    rw [version] at hversion
    split at hversion
    · next hmagic =>
      split at hversion
      · next b m rest hdrop =>
        split at hversion
        · next hknown =>
          obtain ⟨hmajor, hminor⟩ := Prod.mk.inj (Except.ok.inj hversion)
          have hm : m = 0 := hknown.2
          refine ⟨b, rest, ?_, hknown.1, hmajor.symm, ?_⟩
          · have hsplit := List.take_append_drop 6 bytes
            rw [hmagic, hdrop, hm] at hsplit
            rw [← hsplit]
            simp
          · rw [← hminor, hm]
            rfl
        · cases hversion
      · cases hversion
    · cases hversion
  · rintro ⟨b, rest, hbytes, hknown, hmajor, hminor⟩
    have htake : bytes.take 6 = magic := by
      rw [hbytes]
      rfl
    have hdrop : bytes.drop 6 = b :: 0 :: rest := by
      rw [hbytes]
      rfl
    rw [version, if_pos htake, hdrop, hmajor, hminor]
    simp only [hknown, and_self, if_true]
    rfl

/-- The length of the header stands in front of it and says where it ends. -/
theorem headerSpan_eq_ok_iff {b : UInt8} {rest : Bytes} {start length : Nat} :
    headerSpan (magic ++ [b, 0] ++ rest) b.toNat = .ok (start, length) ↔
      ∃ field header body, rest = field ++ header ++ body ∧ field.length = fieldWidth b ∧
        littleEndian field = header.length ∧ header ≠ [] ∧ header.length ≤ longestHeader ∧
        start = 8 + fieldWidth b ∧ length = header.length := by
  have hone : b.toNat = 1 ↔ b = 1 := by
    rw [← UInt8.toNat_inj]
    rfl
  have hwidth : (if b.toNat = 1 then 2 else 4) = fieldWidth b := by
    simp only [fieldWidth, hone]
  have hdrop : (magic ++ [b, 0] ++ rest).drop 8 = rest := rfl
  have htotal : (magic ++ [b, 0] ++ rest).length = 8 + rest.length := by
    rw [List.length_append]
    rfl
  rw [headerSpan]
  simp only [hwidth, hdrop, htotal]
  generalize fieldWidth b = width
  constructor
  · intro hspan
    split at hspan
    · cases hspan
    next hlong =>
    split at hspan
    · cases hspan
    next hbudget =>
    split at hspan
    · cases hspan
    next hinside =>
    obtain ⟨hstart, hlength⟩ := Prod.mk.inj (Except.ok.inj hspan)
    have hfield : (rest.take width).length = width := by
      rw [List.length_take] at hlong ⊢
      omega
    have hrest : rest.length = width + (rest.drop width).length := by
      rw [List.length_take] at hfield
      rw [List.length_drop]
      omega
    have hheader : ((rest.drop width).take length).length = length := by
      rw [List.length_take]
      omega
    refine ⟨rest.take width, (rest.drop width).take length, (rest.drop width).drop length, ?_,
      hfield, ?_, ?_, ?_, hstart.symm, hheader.symm⟩
    · rw [List.append_assoc, List.take_append_drop, List.take_append_drop]
    · rw [hheader, hlength]
    · intro hnil
      rw [hnil, List.length_nil] at hheader
      omega
    · omega
  · rintro ⟨field, header, body, hrest, hfield, hlittle, hne, hbudget, hstart, hlength⟩
    have htake : rest.take width = field := by
      rw [hrest, List.append_assoc, ← hfield, List.take_left]
    have hpos : header.length ≠ 0 := fun hz => hne (List.length_eq_zero_iff.mp hz)
    have hinside : rest.length = width + header.length + body.length := by
      rw [hrest, List.length_append, List.length_append, hfield]
    rw [htake, hlittle, if_neg (by omega), if_neg (by omega), if_neg (by omega), hstart, hlength]

/-- The header and the body of a file are found where the length of the header says. -/
theorem framed_parts {b : UInt8} {field : Bytes} (hfield : field.length = fieldWidth b)
    (header tail : Bytes) :
    ((magic ++ [b, 0] ++ (field ++ header ++ tail)).drop (8 + fieldWidth b)).take header.length =
        header ∧
      (magic ++ [b, 0] ++ (field ++ header ++ tail)).drop (8 + fieldWidth b + header.length) =
        tail := by
  have hfront : (magic ++ [b, 0] ++ field).length = 8 + fieldWidth b := by
    rw [List.length_append, hfield]
    rfl
  have hall : magic ++ [b, 0] ++ (field ++ header ++ tail) =
      magic ++ [b, 0] ++ field ++ (header ++ tail) := by
    simp only [List.append_assoc]
  rw [hall, ← hfront, List.drop_left, List.take_left, ← List.drop_drop, List.drop_left,
    List.drop_left]
  exact ⟨rfl, rfl⟩

/-- A file is read as its header says when the body is the payload of the header. -/
theorem read_eq_ok_iff :
    read bytes = .ok (h, body) ↔
      ∃ header count, Framed bytes header body ∧ readHeader header = .ok h ∧
        checkPayload h.shape body.length h.kind = .ok count := by
  constructor
  · intro hread
    rw [read] at hread
    obtain ⟨⟨major, minor⟩, hversion, hread⟩ := bind_eq_ok_iff.mp hread
    obtain ⟨⟨start, length⟩, hspan, hread⟩ := bind_eq_ok_iff.mp hread
    obtain ⟨b, rest, hbytes, hknown, hmajor, -⟩ := (version_eq_ok_iff).mp hversion
    rw [hbytes, hmajor] at hspan
    obtain ⟨field, header, tail, hrest, hfield, hlittle, hne, hbudget, hstart, hlength⟩ :=
      (headerSpan_eq_ok_iff).mp hspan
    obtain ⟨hheader, htail⟩ := framed_parts hfield header tail
    rw [hrest] at hbytes
    simp only [hbytes, hstart, hlength, hheader, htail] at hread
    obtain ⟨h', hlegible, hread⟩ := bind_eq_ok_iff.mp hread
    obtain ⟨count, hcount, hread⟩ := bind_eq_ok_iff.mp hread
    obtain ⟨hh, hbody⟩ := Prod.mk.inj (Except.ok.inj hread)
    rw [hh] at hlegible hcount
    rw [hbody] at hcount hbytes
    refine ⟨header, count, ⟨⟨b, field, ?_, hknown, hfield, hlittle⟩, hne, hbudget⟩, hlegible,
      hcount⟩
    rw [hbytes]
    simp only [List.append_assoc]
  · rintro ⟨header, count, hframed, hlegible, hcount⟩
    obtain ⟨⟨b, field, hbytes, hknown, hfield, hlittle⟩, hne, hbudget⟩ := hframed
    have hbytes' : bytes = magic ++ [b, 0] ++ (field ++ header ++ body) := by
      rw [hbytes]
      simp only [List.append_assoc]
    have hversion : version bytes = .ok (b.toNat, 0) :=
      (version_eq_ok_iff).mpr ⟨b, _, hbytes', hknown, rfl, rfl⟩
    have hspan : headerSpan bytes b.toNat = .ok (8 + fieldWidth b, header.length) := by
      rw [hbytes']
      exact (headerSpan_eq_ok_iff).mpr
        ⟨field, header, body, rfl, hfield, hlittle, hne, hbudget, rfl, rfl⟩
    obtain ⟨hheader, htail⟩ := framed_parts hfield header body
    rw [← hbytes'] at hheader htail
    rw [read, hversion]
    simp only [bind, Except.bind, hspan, hheader, htail, hlegible, hcount]
    rfl

end NetTrial.Npy
