/-!
# Blank characters and letter case

Names, flags and configured values are compared after the blanks around them are
dropped and, for names, after the letters are put in lower case. Blank means the
Unicode property White_Space, case means the ASCII letters only.
-/

namespace NetTrial.Text

/-- The characters with the Unicode property White_Space, listed by code point. -/
def isBlank (c : Char) : Bool :=
  let n := c.toNat
  (0x9 ≤ n && n ≤ 0xD) || n == 0x20 || n == 0x85 || n == 0xA0 || n == 0x1680 ||
    (0x2000 ≤ n && n ≤ 0x200A) || n == 0x2028 || n == 0x2029 || n == 0x202F ||
    n == 0x205F || n == 0x3000

/-- Every blank that core knows is blank here. -/
theorem isBlank_of_isWhitespace {c : Char} (h : c.isWhitespace = true) : isBlank c = true := by
  simp only [Char.isWhitespace, Bool.or_eq_true, decide_eq_true_eq] at h
  rcases h with ((rfl | rfl) | rfl) | rfl <;> decide

/-- The characters after the leading blanks. -/
def dropBlanks (cs : List Char) : List Char := cs.dropWhile isBlank

/-- The characters before the trailing blanks. -/
def dropTrailingBlanks (cs : List Char) : List Char := (cs.reverse.dropWhile isBlank).reverse

/-- The characters between the leading and the trailing blanks. -/
def trimChars (cs : List Char) : List Char := dropTrailingBlanks (dropBlanks cs)

/-- The text between the leading and the trailing blanks. -/
def trim (s : String) : String := String.ofList (trimChars s.toList)

/-- Whether a text holds blanks only. -/
def isBlankText (s : String) : Bool := s.toList.all isBlank

/-- The text with its ASCII capitals in lower case. -/
def lowerAscii (s : String) : String := String.ofList (s.toList.map Char.toLower)

/-- Whether a list of characters opens with another. -/
def opensWith : (word cs : List Char) → Bool
  | [], _ => true
  | _ :: _, [] => false
  | w :: ws, c :: cs => w == c && opensWith ws cs

/-- A list opens with a word exactly when it is that word and something after it. -/
theorem opensWith_iff {word cs : List Char} :
    opensWith word cs = true ↔ ∃ rest, cs = word ++ rest := by
  induction word generalizing cs with
  | nil => simp [opensWith]
  | cons w ws ih =>
    cases cs with
    | nil => simp [opensWith]
    | cons c cs =>
      simp only [opensWith, Bool.and_eq_true, beq_iff_eq, ih, List.cons_append, List.cons.injEq,
        exists_and_left]
      exact ⟨fun ⟨h, hr⟩ => ⟨h.symm, hr⟩, fun ⟨h, hr⟩ => ⟨h.symm, hr⟩⟩

/-- What follows the first occurrence of a word. -/
def after? (word : List Char) : List Char → Option (List Char)
  | [] => if word.isEmpty then some [] else none
  | c :: cs => if opensWith word (c :: cs) then some ((c :: cs).drop word.length) else after? word cs

/-- The pieces of a list between the occurrences of a separator, at least one of them. -/
def splitOn (separator : Char) : List Char → List (List Char)
  | [] => [[]]
  | c :: cs =>
    match splitOn separator cs with
    | [] => [[c]]
    | piece :: pieces => if c == separator then [] :: piece :: pieces else (c :: piece) :: pieces

/-- The pieces joined with a separator between them. -/
def joinWith (separator : String) (pieces : List String) : String :=
  String.intercalate separator pieces

/-- Whether a text opens with another. -/
def startsWith (word s : String) : Bool := opensWith word.toList s.toList

/-- Whether a text ends in another. -/
def endsWith (word s : String) : Bool := opensWith word.toList.reverse s.toList.reverse

end NetTrial.Text
