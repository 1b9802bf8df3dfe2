import NetTrial.Proofs.Digits
import NetTrial.Json.Decoder
import NetTrial.Json.Printer
/-!
# Documents are read back

A value without marks of a broken document is read back from either of its written forms,
whatever stands behind it that does not go on with a number. The fuel that the reader is given
is enough for every value: a call takes one step of it, and each nested call is paid for by
half a character.
-/

namespace NetTrial.Json

open Number

/-! ## Written values -/

mutual

/-- A value without marks of a broken document. -/
def Written : Json → Prop
  | .broken => False
  | .text t => t ≠ .garbled
  | .array items => AllWritten items
  | .object members => MembersWritten members
  | _ => True

/-- Items without such marks. -/
def AllWritten : List Json → Prop
  | [] => True
  | item :: items => Written item ∧ AllWritten items

/-- Members without such marks. -/
def MembersWritten : List (Token × Json) → Prop
  | [] => True
  | (name, item) :: members => name ≠ .garbled ∧ Written item ∧ MembersWritten members

end

/-- The units of some characters. -/
def input (cs : List Char) : Input := cs.map some

theorem input_append (front back : List Char) : input (front ++ back) = input front ++ input back :=
  List.map_append

/-! ## Numbers -/

/-- What does not go on with digits. -/
def NoDigit (rest : Input) : Prop := ∀ c tail, rest = some c :: tail → digit? c = none

/-- What does not go on with a number. -/
def Stops (rest : Input) : Prop :=
  ∀ c tail, rest = some c :: tail → digit? c = none ∧ c ≠ '.' ∧ c ≠ 'e' ∧ c ≠ 'E'

theorem Stops.noDigit {rest : Input} (h : Stops rest) : NoDigit rest :=
  fun c tail hr => (h c tail hr).1

theorem stops_nil : Stops [] := by
  intro c tail h
  cases h

theorem stops_cons {c : Char} (h : digit? c = none ∧ c ≠ '.' ∧ c ≠ 'e' ∧ c ≠ 'E')
    (rest : Input) : Stops (some c :: rest) := by
  intro c' tail hr
  cases hr
  exact h

theorem digits_of_noDigit {rest : Input} (h : NoDigit rest) : digits rest = ([], rest) := by
  cases rest with
  | nil => rfl
  | cons u tail =>
    cases u with
    | none => rfl
    | some c =>
      rw [digits, h c tail rfl]

/-- Digits are read up to where they end. -/
theorem digits_append (ds : List (Fin 10)) {rest : Input} (h : NoDigit rest) :
    digits (input (ds.map digitOf) ++ rest) = (ds, rest) := by
  induction ds with
  | nil => exact digits_of_noDigit h
  | cons d ds ih =>
    simp only [input, List.map_cons, List.cons_append, digits, digit?_digitOf]
    simp only [input, List.map_map] at ih
    simp only [List.map_map, ih]

theorem whole?_digitsOf (n : Nat) {rest : Input} (h : NoDigit rest) :
    whole? (input (digitsOf n) ++ rest) = some (n, rest) := by
  obtain ⟨d, ds, hdigits, hvalue, hzero⟩ := exists_digitsOf n
  rw [hdigits, whole?, digits_append (d :: ds) h]
  have hlead : ¬ (d.val = 0 ∧ ds ≠ []) := fun hd => hd.2 (hzero hd.1).1
  simp only [if_neg hlead, hvalue]

/-- The characters of the digits behind the point. -/
def fractionChars (fraction : List (Fin 10)) : List Char :=
  if fraction.isEmpty then [] else '.' :: fraction.map digitOf

theorem fraction?_append (fraction : List (Fin 10)) {rest : Input} (h : NoDigit rest)
    (hp : ∀ tail, rest ≠ some '.' :: tail) :
    fraction? (input (fractionChars fraction) ++ rest) = some (fraction, rest) := by
  cases fraction with
  | nil =>
    change fraction? rest = _
    rw [fraction?.eq_def]
    split
    · exact absurd rfl (hp _)
    · rfl
  | cons d ds =>
    change fraction? (some '.' :: (input ((d :: ds).map digitOf) ++ rest)) = _
    rw [fraction?, digits_append (d :: ds) h]

theorem signedExponent?_append (negative : Bool) (n : Nat) {rest : Input} (h : NoDigit rest) :
    signedExponent? negative (input (digitsOf n) ++ rest) =
      some (some (if negative then -(n : Int) else n), rest) := by
  obtain ⟨d, ds, hdigits, hvalue, -⟩ := exists_digitsOf n
  rw [hdigits, signedExponent?, digits_append (d :: ds) h]
  simp only [hvalue]

theorem exponent?_append (exponent : Option Int) {rest : Input} (h : Stops rest) :
    exponent? (input (exponentChars exponent) ++ rest) = some (exponent, rest) := by
  cases exponent with
  | none =>
    change exponent? rest = _
    cases rest with
    | nil => rfl
    | cons u tail =>
      cases u with
      | none => rfl
      | some c =>
        obtain ⟨-, -, he, hE⟩ := h c tail rfl
        rw [exponent?.eq_def]
        split
        · rename_i heq
          simp only [List.cons.injEq, Option.some.injEq] at heq
          exact absurd heq.1 he
        · rename_i heq
          simp only [List.cons.injEq, Option.some.injEq] at heq
          exact absurd heq.1 hE
        · rfl
  | some e =>
    by_cases hn : e < 0
    · have hi : input (exponentChars (some e)) ++ rest =
          some 'e' :: some '-' :: (input (digitsOf e.natAbs) ++ rest) := by
        simp [exponentChars, input, hn]
      rw [hi, exponent?, signedExponent?_append true _ h.noDigit]
      simp only [if_true, Option.some.injEq, Prod.mk.injEq, and_true]
      omega
    · have hi : input (exponentChars (some e)) ++ rest =
          some 'e' :: some '+' :: (input (digitsOf e.natAbs) ++ rest) := by
        simp [exponentChars, input, hn]
      rw [hi, exponent?, signedExponent?_append false _ h.noDigit]
      simp only [Bool.false_eq_true, if_false, Option.some.injEq, Prod.mk.injEq, and_true]
      omega

theorem exponentChars_head (exponent : Option Int) (rest : Input) :
    input (exponentChars exponent) ++ rest = rest ∧ exponent = none ∨
      ∃ tail, input (exponentChars exponent) ++ rest = some 'e' :: tail := by
  cases exponent with
  | none => exact Or.inl ⟨rfl, rfl⟩
  | some e => exact Or.inr ⟨_, rfl⟩

theorem unsigned?_append (negative : Bool) (n : Spelling) (hn : n.negative = negative)
    {rest : Input} (h : Stops rest) :
    unsigned? negative (input (digitsOf n.whole ++ fractionChars n.fraction ++
      exponentChars n.exponent) ++ rest) = some (n, rest) := by
  have hexp : NoDigit (input (exponentChars n.exponent) ++ rest) ∧
      ∀ tail, input (exponentChars n.exponent) ++ rest ≠ some '.' :: tail := by
    rcases exponentChars_head n.exponent rest with ⟨he, -⟩ | ⟨tail, he⟩
    · rw [he]
      refine ⟨h.noDigit, fun tail hr => ?_⟩
      exact (h '.' tail hr).2.1 rfl
    · rw [he]
      refine ⟨fun c t hc => ?_, fun t ht => ?_⟩
      · cases hc
        decide
      · simp at ht
  have hfrac : NoDigit (input (fractionChars n.fraction) ++
      (input (exponentChars n.exponent) ++ rest)) := by
    cases hf : n.fraction with
    | nil => exact hexp.1
    | cons d ds =>
      intro c tail hc
      cases hc
      decide
  have hsplit : input (digitsOf n.whole ++ fractionChars n.fraction ++
      exponentChars n.exponent) ++ rest = input (digitsOf n.whole) ++
        (input (fractionChars n.fraction) ++ (input (exponentChars n.exponent) ++ rest)) := by
    simp [input]
  rw [hsplit, unsigned?, whole?_digitsOf n.whole hfrac]
  simp only [Option.bind_eq_bind, Option.bind_some, fraction?_append n.fraction hexp.1 hexp.2,
    exponent?_append n.exponent h, ← hn]
  rfl

theorem numberChars_eq (n : Spelling) :
    numberChars n = (if n.negative then ['-'] else []) ++
      (digitsOf n.whole ++ fractionChars n.fraction ++ exponentChars n.exponent) := by
  simp only [numberChars, fractionChars, List.append_assoc]
  rfl

/-- A number opens with a sign or a digit. -/
def OpensNumber (c : Char) : Prop := c = '-' ∨ ∃ d, c = digitOf d

theorem numberChars_head (n : Spelling) :
    ∃ c tail, numberChars n = c :: tail ∧ OpensNumber c := by
  obtain ⟨d, ds, hdigits, -⟩ := exists_digitsOf n.whole
  rw [numberChars_eq, hdigits]
  by_cases hn : n.negative = true
  · exact ⟨'-', _, by rw [if_pos hn]; rfl, Or.inl rfl⟩
  · exact ⟨digitOf d, _, by rw [if_neg hn]; rfl, Or.inr ⟨d, rfl⟩⟩

theorem number?_of_digit (d : Fin 10) (tail : Input) :
    number? (some (digitOf d) :: tail) = unsigned? false (some (digitOf d) :: tail) := by
  have hsign : ∀ d, digitOf d ≠ '-' := by decide
  rw [number?.eq_def]
  split
  · rename_i heq
    simp only [List.cons.injEq, Option.some.injEq] at heq
    exact absurd heq.1 (hsign d)
  · rfl

/-- A number is read back from its characters. -/
theorem number?_append (n : Spelling) {rest : Input} (h : Stops rest) :
    number? (input (numberChars n) ++ rest) = some (n, rest) := by
  obtain ⟨d, ds, hdigits, -⟩ := exists_digitsOf n.whole
  rw [numberChars_eq]
  by_cases hn : n.negative = true
  · rw [if_pos hn]
    exact unsigned?_append true n hn h
  · rw [if_neg hn, List.nil_append]
    have hu := unsigned?_append false n (by simpa using hn) h
    rw [hdigits] at hu ⊢
    exact (number?_of_digit d _).trans hu

/-! ## Strings -/

/-- The piece that an escaped character is read as. -/
def pieceOf (c : Char) : Piece :=
  if c.toNat < 0x20 ∧ c ≠ '\n' ∧ c ≠ '\r' ∧ c ≠ '\t' ∧ c ≠ '\x08' ∧ c ≠ '\x0c' then .named c.toNat
  else .char c

theorem hexValue?_digitChar (d : Fin 16) : hexValue? (Nat.digitChar d.val) = some d.val := by
  revert d
  decide

/-- A control character without a short escape is read as the unit of its number. -/
theorem hexFour?_control (n : Nat) (h : n < 256) :
    hexFour? '0' '0' (Nat.digitChar (n / 16)) (Nat.digitChar (n % 16)) = some n := by
  have hhigh := hexValue?_digitChar ⟨n / 16, by omega⟩
  have hlow := hexValue?_digitChar ⟨n % 16, by omega⟩
  have hzero : hexValue? '0' = some 0 := by decide
  simp only at hhigh hlow
  simp only [hexFour?, hzero, hhigh, hlow, Option.bind_eq_bind, Option.bind_some]
  change some _ = some _
  congr 1
  omega

/-- An escaped character is read as one piece. -/
theorem pieces?_escapeChar (c : Char) (rest : Input) :
    pieces? (input (escapeChar c) ++ rest) =
      (pieces? rest).map fun (ps, r) => (pieceOf c :: ps, r) := by
  unfold escapeChar
  by_cases h1 : c = '"'
  · subst h1
    rfl
  by_cases h2 : c = '\\'
  · subst h2
    rfl
  by_cases h3 : c = '\n'
  · subst h3
    rfl
  by_cases h4 : c = '\r'
  · subst h4
    rfl
  by_cases h5 : c = '\t'
  · subst h5
    rfl
  by_cases h6 : c = '\x08'
  · subst h6
    rfl
  by_cases h7 : c = '\x0c'
  · subst h7
    rfl
  simp only [h1, h2, h3, h4, h5, h6, h7, if_false]
  by_cases h8 : c.toNat < 0x20
  · have hp : pieceOf c = .named c.toNat := if_pos ⟨h8, h3, h4, h5, h6, h7⟩
    have hx := hexFour?_control c.toNat (by omega)
    simp only [if_pos h8, input, List.map_cons, List.map_nil, List.cons_append, List.nil_append]
    rw [pieces?]
    simp only [hx, hp]
  · have hp : pieceOf c = .char c := if_neg fun h => h8 h.1
    rw [if_neg h8, hp]
    change pieces? (some c :: rest) = _
    rw [pieces?.eq_def]
    split
    case h_7 heq =>
      simp only [List.cons.injEq, Option.some.injEq] at heq
      obtain ⟨rfl, rfl⟩ := heq
      rw [if_neg h8]
    all_goals simp_all

theorem pieces?_escaped (cs : List Char) (rest : Input) :
    pieces? (input (cs.flatMap escapeChar) ++ some '"' :: rest) =
      some (cs.map pieceOf, rest) := by
  induction cs with
  | nil => rfl
  | cons c cs ih =>
    rw [List.flatMap_cons, input_append, List.append_assoc, pieces?_escapeChar, ih]
    rfl

/-- The pieces of escaped characters are put together to these characters. -/
theorem assemble?_pieceOf (cs : List Char) : assemble? (cs.map pieceOf) = some cs := by
  induction cs with
  | nil => rfl
  | cons c cs ih =>
    rw [List.map_cons]
    by_cases hc : c.toNat < 0x20 ∧ c ≠ '\n' ∧ c ≠ '\r' ∧ c ≠ '\t' ∧ c ≠ '\x08' ∧ c ≠ '\x0c'
    · have hp : pieceOf c = .named c.toNat := if_pos hc
      have hlow : ¬ (0xD800 ≤ c.toNat ∧ c.toNat < 0xDC00) := by omega
      have hhigh : ¬ (0xDC00 ≤ c.toNat ∧ c.toNat < 0xE000) := by omega
      have hnone : ¬ (0xD800 ≤ c.toNat ∧ c.toNat < 0xE000) := by omega
      rw [hp, assemble?.eq_def]
      split
      · rename_i heq
        cases heq
      · rename_i heq
        cases heq
      · rename_i heq
        cases heq
      · rename_i high low ps heq
        simp only [List.cons.injEq, Piece.named.injEq] at heq
        obtain ⟨rfl, hps⟩ := heq
        rw [if_neg hlow, if_neg hhigh, ← hps, ih, Char.ofNat_toNat]
        rfl
      · rename_i code ps _ heq
        simp only [List.cons.injEq, Piece.named.injEq] at heq
        obtain ⟨rfl, rfl⟩ := heq
        rw [if_neg hnone, ih, Char.ofNat_toNat]
        rfl
    · have hp : pieceOf c = .char c := if_neg hc
      rw [hp, assemble?, ih]
      rfl

/-- A text is read back from its token. -/
theorem pieces?_quoted (s : String) (rest : Input) :
    ∃ tail ps, input (quoted s) ++ rest = some '"' :: tail ∧ pieces? tail = some (ps, rest) ∧
      tokenOf ps = .read s := by
  refine ⟨input (s.toList.flatMap escapeChar) ++ some '"' :: rest, s.toList.map pieceOf, ?_,
    pieces?_escaped s.toList rest, ?_⟩
  · simp [quoted, input]
  · rw [tokenOf, assemble?_pieceOf]
    simp only [String.ofList_toList]

/-! ## Values -/

theorem skipBlanks_lineBreak (form : Form) (level : Nat) (rest : Input) :
    skipBlanks (input (form.lineBreak level) ++ rest) = skipBlanks rest := by
  cases form with
  | compact => rfl
  | pretty =>
    change skipBlanks (input (List.replicate (2 * level) ' ') ++ rest) = _
    induction 2 * level with
    | zero => rfl
    | succ n ih => exact ih

/-- Blanks in front of a value make no difference. -/
theorem value_of_skipBlanks {input input' : Input} (h : skipBlanks input = skipBlanks input')
    (fuel : Nat) : value fuel input = value fuel input' := by
  cases fuel with
  | zero => rfl
  | succ fuel => rw [value, value, h]

theorem members_of_skipBlanks {input input' : Input} (h : skipBlanks input = skipBlanks input')
    (fuel : Nat) : members fuel input = members fuel input' := by
  cases fuel with
  | zero => rfl
  | succ fuel => rw [members, members, h]

/-- A character that opens a value: no blank and no closing bracket. -/
def OpensValue (c : Char) : Prop := c ∈ ['n', 't', 'f', '"', '[', '\x7b', '-'] ∨ ∃ d, c = digitOf d

theorem skipBlanks_of_opensValue {c : Char} (h : OpensValue c) (tail : Input) :
    skipBlanks (some c :: tail) = some c :: tail := by
  rcases h with h | ⟨d, rfl⟩
  · simp only [List.mem_cons, List.not_mem_nil, or_false] at h
    rcases h with rfl | rfl | rfl | rfl | rfl | rfl | rfl <;> rfl
  · have hblank : ∀ d, digitOf d ≠ ' ' ∧ digitOf d ≠ '\t' ∧ digitOf d ≠ '\n' ∧
        digitOf d ≠ '\r' := by
      decide
    obtain ⟨h1, h2, h3, h4⟩ := hblank d
    rw [skipBlanks.eq_def]
    split <;> simp_all

theorem chars_head {j : Json} (h : j.Written) (form : Form) (level : Nat) :
    ∃ c tail, chars form level j = c :: tail ∧ OpensValue c := by
  cases j with
  | null => exact ⟨'n', _, by rw [chars], Or.inl (by decide)⟩
  | bool b =>
    cases b with
    | true => exact ⟨'t', _, by rw [chars], Or.inl (by decide)⟩
    | false => exact ⟨'f', _, by rw [chars], Or.inl (by decide)⟩
  | number n =>
    obtain ⟨c, tail, hc, ho⟩ := numberChars_head n
    refine ⟨c, tail, by rw [chars, hc], ?_⟩
    rcases ho with rfl | ho
    · exact Or.inl (by decide)
    · exact Or.inr ho
  | text t =>
    cases t with
    | read s => exact ⟨'"', _, by rw [chars]; rfl, Or.inl (by decide)⟩
    | garbled => exact absurd rfl (by rw [Written] at h; exact h)
  | array items =>
    cases items with
    | nil => exact ⟨'[', _, by rw [chars], Or.inl (by decide)⟩
    | cons item items => exact ⟨'[', _, by rw [chars], Or.inl (by decide)⟩
  | object members =>
    cases members with
    | nil => exact ⟨'\x7b', _, by rw [chars], Or.inl (by decide)⟩
    | cons m members =>
      obtain ⟨name, item⟩ := m
      exact ⟨'\x7b', _, by rw [chars], Or.inl (by decide)⟩
  | broken =>
    rw [Written] at h
    exact h.elim

/-- A number is what opens like one. -/
theorem value_of_opensNumber {c : Char} (h : OpensNumber c) (fuel : Nat) (tail : Input) :
    value (fuel + 1) (some c :: tail) =
      match number? (some c :: tail) with
      | some (n, rest) => (.number n, rest)
      | none => (.broken, []) := by
  have hskip : skipBlanks (some c :: tail) = some c :: tail := by
    apply skipBlanks_of_opensValue
    rcases h with rfl | h
    · exact Or.inl (by decide)
    · exact Or.inr h
  have hdigit : ∀ d, digitOf d ≠ 'n' ∧ digitOf d ≠ 't' ∧ digitOf d ≠ 'f' ∧ digitOf d ≠ '"' ∧
      digitOf d ≠ '[' ∧ digitOf d ≠ '\x7b' := by
    decide
  have hother : c ≠ 'n' ∧ c ≠ 't' ∧ c ≠ 'f' ∧ c ≠ '"' ∧ c ≠ '[' ∧ c ≠ '\x7b' := by
    rcases h with rfl | ⟨d, rfl⟩
    · decide
    · exact hdigit d
  obtain ⟨h1, h2, h3, h4, h5, h6⟩ := hother
  rw [value.eq_def]
  simp only [hskip]
  split
  case h_7 => rfl
  all_goals simp_all

theorem stops_lineBreak_append (form : Form) (level : Nat) {rest : Input} (h : Stops rest) :
    Stops (input (form.lineBreak level) ++ rest) := by
  cases form with
  | compact => exact h
  | pretty => exact stops_cons (by decide) _

theorem stops_itemChars (form : Form) (level : Nat) (items : List Json) (rest : Input) :
    Stops (input (itemChars form level items) ++ rest) := by
  cases items with
  | nil =>
    rw [itemChars, input_append, List.append_assoc]
    exact stops_lineBreak_append form level (stops_cons (by decide) _)
  | cons item items =>
    rw [itemChars]
    exact stops_cons (by decide) _

theorem stops_memberChars (form : Form) (level : Nat) (members : List (Token × Json))
    (rest : Input) : Stops (input (memberChars form level members) ++ rest) := by
  cases members with
  | nil =>
    rw [memberChars, input_append, List.append_assoc]
    exact stops_lineBreak_append form level (stops_cons (by decide) _)
  | cons m members =>
    obtain ⟨name, item⟩ := m
    rw [memberChars]
    exact stops_cons (by decide) _

/-- What stands between a name and its value. -/
theorem skipBlanks_colon (form : Form) (rest : Input) :
    ∃ after, skipBlanks (input form.colon ++ rest) = some ':' :: after ∧
      skipBlanks after = skipBlanks rest := by
  cases form with
  | compact => exact ⟨rest, rfl, rfl⟩
  | pretty => exact ⟨some ' ' :: rest, rfl, rfl⟩

theorem value_array_cons {fuel : Nat} {tail after : Input} {c : Char}
    (ho : OpensValue c) (h : skipBlanks tail = some c :: after) :
    value (fuel + 1) (some '[' :: tail) = (.array (items fuel tail).1, (items fuel tail).2) := by
  have hc : c ≠ ']' := by
    rintro rfl
    revert ho
    rintro (ho | ⟨d, hd⟩)
    · revert ho
      decide
    · revert d
      decide
  have hitems : items fuel (some c :: after) = items fuel tail := by
    cases fuel with
    | zero => rfl
    | succ fuel =>
      rw [items, items, value_of_skipBlanks (h.trans (skipBlanks_of_opensValue ho after).symm)]
  have hopen : skipBlanks (some '[' :: tail) = some '[' :: tail := rfl
  rw [value, ← hitems]
  simp only [hopen, h]
  split
  · rename_i heq
    simp only [List.cons.injEq, Option.some.injEq] at heq
    exact absurd heq.1 hc
  · rfl

theorem value_object_cons {fuel : Nat} {tail after : Input}
    (h : skipBlanks tail = some '"' :: after) :
    value (fuel + 1) (some '\x7b' :: tail) =
      (.object (members fuel tail).1, (members fuel tail).2) := by
  have hmembers : members fuel (some '"' :: after) = members fuel tail := by
    refine members_of_skipBlanks ?_ fuel
    rw [h]
    rfl
  have hopen : skipBlanks (some '\x7b' :: tail) = some '\x7b' :: tail := rfl
  rw [value, ← hmembers]
  simp only [hopen, h]
  rfl

mutual

/-- A written value is read back, whatever follows that does not go on with a number. -/
theorem value_chars : ∀ (j : Json) (form : Form) (level fuel : Nat) (rest : Input),
    j.Written → Stops rest → 2 * (chars form level j).length ≤ fuel →
      value fuel (input (chars form level j) ++ rest) = (j, rest)
  | j, form, level, 0, rest, hw, _, hf => by
    obtain ⟨c, tail, hc, -⟩ := chars_head hw form level
    rw [hc] at hf
    simp at hf
  | .null, form, level, fuel + 1, rest, _, _, _ => by
    rw [chars]
    rfl
  | .bool true, form, level, fuel + 1, rest, _, _, _ => by
    rw [chars]
    rfl
  | .bool false, form, level, fuel + 1, rest, _, _, _ => by
    rw [chars]
    rfl
  | .number n, form, level, fuel + 1, rest, _, hs, _ => by
    rw [chars]
    have hn := number?_append n hs
    obtain ⟨c, tail, hc, ho⟩ := numberChars_head n
    rw [hc] at hn ⊢
    exact (value_of_opensNumber ho fuel _).trans (by
      change (match number? (input (c :: tail) ++ rest) with
        | some (n, rest) => _
        | none => _) = _
      rw [hn])
  | .text (.read s), form, level, fuel + 1, rest, _, _, _ => by
    rw [chars, Token.chars]
    obtain ⟨tail, ps, hq, hp, ht⟩ := pieces?_quoted s rest
    rw [hq]
    change (match pieces? tail with
      | some (ps, rest) => _
      | none => _) = _
    rw [hp]
    simp only [ht]
  | .text .garbled, form, level, fuel + 1, rest, hw, _, _ => by
    rw [Written] at hw
    exact absurd rfl hw
  | .array [], form, level, fuel + 1, rest, _, _, _ => by
    rw [chars]
    rfl
  | .array (item :: more), form, level, fuel + 1, rest, hw, hs, hf => by
    rw [Written] at hw
    rw [chars] at hf ⊢
    have hitems := items_chars (item :: more) form level fuel rest item more rfl hw
      (by simp only [List.length_cons, List.length_append] at hf ⊢; omega)
    obtain ⟨c, tail, hc, ho⟩ := chars_head (by rw [AllWritten] at hw; exact hw.1) form (level + 1)
    have hskip : skipBlanks (input (form.lineBreak (level + 1) ++ chars form (level + 1) item ++
        itemChars form level more) ++ rest) =
        some c :: (input (tail ++ itemChars form level more) ++ rest) := by
      rw [List.append_assoc, input_append, List.append_assoc, skipBlanks_lineBreak, hc]
      exact skipBlanks_of_opensValue ho _
    refine (value_array_cons ho hskip).trans ?_
    rw [hitems]
  | .object [], form, level, fuel + 1, rest, _, _, _ => by
    rw [chars]
    rfl
  | .object ((name, item) :: more), form, level, fuel + 1, rest, hw, hs, hf => by
    rw [Written] at hw
    rw [chars] at hf ⊢
    have hmembers := members_chars ((name, item) :: more) form level fuel rest name item more rfl
      hw (by simp only [List.length_cons, List.length_append] at hf ⊢; omega)
    have hskip : ∃ after, skipBlanks (input (form.lineBreak (level + 1) ++ name.chars ++
        form.colon ++ chars form (level + 1) item ++ memberChars form level more) ++ rest) =
        some '"' :: after := by
      cases name with
      | read s =>
        simp only [List.append_assoc]
        rw [input_append, List.append_assoc, skipBlanks_lineBreak]
        exact ⟨_, rfl⟩
      | garbled =>
        rw [MembersWritten] at hw
        exact absurd rfl hw.1
    obtain ⟨after, hskip⟩ := hskip
    refine (value_object_cons hskip).trans ?_
    rw [hmembers]
  | .broken, form, level, fuel + 1, rest, hw, _, _ => by
    rw [Written] at hw
    exact hw.elim

/-- Written items are read back up to the closing bracket. -/
theorem items_chars : ∀ (all : List Json) (form : Form) (level fuel : Nat) (rest : Input)
    (item : Json) (more : List Json), all = item :: more → AllWritten all →
      2 * (chars form (level + 1) item).length + 2 * (itemChars form level more).length ≤
        fuel + 1 →
      items fuel (input (form.lineBreak (level + 1) ++ chars form (level + 1) item ++
        itemChars form level more) ++ rest) = (item :: more, rest)
  | [], _, _, _, _, _, _, h, _, _ => by cases h
  | item :: more, form, level, fuel, rest, item', more', h, hw, hf => by
    cases h
    rw [AllWritten] at hw
    obtain ⟨c, tail, hc, -⟩ := chars_head hw.1 form (level + 1)
    have hmore : 1 ≤ (itemChars form level more).length := by
      cases more with
      | nil => simp [itemChars]
      | cons next more => simp [itemChars]
    cases fuel with
    | zero =>
      rw [hc] at hf
      simp only [List.length_cons] at hf
      omega
    | succ fuel =>
      have hitem := value_chars item form (level + 1) fuel
        (input (itemChars form level more) ++ rest) hw.1 (stops_itemChars form level more rest)
        (by omega)
      have hskip : value fuel (input (form.lineBreak (level + 1) ++ chars form (level + 1) item ++
          itemChars form level more) ++ rest) =
          (item, input (itemChars form level more) ++ rest) := by
        rw [← hitem]
        apply value_of_skipBlanks
        rw [List.append_assoc, input_append, List.append_assoc, skipBlanks_lineBreak,
          input_append, List.append_assoc]
      rw [items]
      simp only [hskip]
      cases more with
      | nil =>
        rw [itemChars, input_append, List.append_assoc, skipBlanks_lineBreak]
        rfl
      | cons next more =>
        rw [itemChars] at hf ⊢
        have hnext := items_chars (next :: more) form level fuel rest next more rfl hw.2
          (by simp only [List.length_cons, List.length_append] at hf ⊢; omega)
        change (match items fuel (input (form.lineBreak (level + 1) ++
          chars form (level + 1) next ++ itemChars form level more) ++ rest) with
          | (more, rest) => (item :: more, rest)) = _
        rw [hnext]

/-- Written members are read back up to the closing brace. -/
theorem members_chars : ∀ (all : List (Token × Json)) (form : Form) (level fuel : Nat)
    (rest : Input) (name : Token) (item : Json) (more : List (Token × Json)),
      all = (name, item) :: more → MembersWritten all →
      2 * (chars form (level + 1) item).length + 2 * (memberChars form level more).length ≤
        fuel + 1 →
      members fuel (input (form.lineBreak (level + 1) ++ name.chars ++ form.colon ++
        chars form (level + 1) item ++ memberChars form level more) ++ rest) =
          ((name, item) :: more, rest)
  | [], _, _, _, _, _, _, _, h, _, _ => by cases h
  | (name, item) :: more, form, level, fuel, rest, name', item', more', h, hw, hf => by
    cases h
    rw [MembersWritten] at hw
    obtain ⟨c, tail, hc, -⟩ := chars_head hw.2.1 form (level + 1)
    have hmore : 1 ≤ (memberChars form level more).length := by
      cases more with
      | nil => simp [memberChars]
      | cons next more => simp [memberChars]
    cases fuel with
    | zero =>
      rw [hc] at hf
      simp only [List.length_cons] at hf
      omega
    | succ fuel =>
      cases name with
      | garbled => exact absurd rfl hw.1
      | read s =>
        have hitem := value_chars item form (level + 1) fuel
          (input (memberChars form level more) ++ rest) hw.2.1
          (stops_memberChars form level more rest) (by omega)
        obtain ⟨after, ps, hq, hp, ht⟩ := pieces?_quoted s (input form.colon ++
          (input (chars form (level + 1) item) ++ (input (memberChars form level more) ++ rest)))
        obtain ⟨behind, hcolon, hbehind⟩ := skipBlanks_colon form
          (input (chars form (level + 1) item) ++ (input (memberChars form level more) ++ rest))
        have hskip : skipBlanks (input (form.lineBreak (level + 1) ++ (Token.read s).chars ++
            form.colon ++ chars form (level + 1) item ++ memberChars form level more) ++ rest) =
            some '"' :: after := by
          rw [List.append_assoc, List.append_assoc, List.append_assoc, input_append,
            List.append_assoc, skipBlanks_lineBreak]
          have hrest : input ((Token.read s).chars ++ (form.colon ++ (chars form (level + 1) item ++
              memberChars form level more))) ++ rest = some '"' :: after := by
            rw [← hq, Token.chars]
            simp only [input_append, List.append_assoc]
          rw [hrest]
          rfl
        rw [members]
        simp only [hskip, hp, hcolon, value_of_skipBlanks hbehind, hitem, ht]
        cases more with
        | nil =>
          rw [memberChars, input_append, List.append_assoc, skipBlanks_lineBreak]
          rfl
        | cons next more =>
          obtain ⟨name, next⟩ := next
          rw [memberChars] at hf ⊢
          have hnext := members_chars ((name, next) :: more) form level fuel rest name next more
            rfl hw.2.2 (by simp only [List.length_cons, List.length_append] at hf ⊢; omega)
          change (match members fuel (input (form.lineBreak (level + 1) ++ name.chars ++
            form.colon ++ chars form (level + 1) next ++ memberChars form level more) ++ rest) with
            | (more, rest) => ((Token.read s, item) :: more, rest)) = _
          rw [hnext]

end

/-- A document is read back from either of its written forms. -/
theorem readChars_chars {j : Json} (h : j.Written) (form : Form) :
    readChars (chars form 0 j) = ⟨j, true⟩ := by
  have hv := value_chars j form 0 (2 * (input (chars form 0 j)).length + 2) [] h stops_nil
    (by simp only [input, List.length_map]; omega)
  rw [List.append_nil] at hv
  simp only [input] at hv
  rw [readChars, readUnits, hv]
  rfl

end NetTrial.Json
