import NetTrial.Host.Raw
/-!
# Patterns

A pattern matches texts: a star any text, a question mark any character, brackets one of some
characters, and a backslash takes the character behind it literally. Brackets that are not
closed stand for themselves.
-/

namespace NetTrial.Host

/-- What brackets hold. -/
inductive Member where
  /-- The characters between two, ends included. -/
  | range (low high : Char)
  /-- The characters of a class. -/
  | ofClass (test : Char → Bool)

/-- A step of a pattern. -/
inductive Step where
  /-- A character. -/
  | literal (c : Char)
  /-- Any character. -/
  | anyOne
  /-- Any text. -/
  | anyText
  /-- A character that one of the members holds, or that none does. -/
  | oneOf (inverted : Bool) (members : List Member)

namespace Pattern

/-- Whether a character is printed and takes space. -/
def isGraphic (c : Char) : Bool := 33 ≤ c.toNat && c.toNat ≤ 126

/-- The named classes of characters, each behind its spelling. -/
def classes : List (Raw × (Char → Bool)) :=
  [ (":alnum:]".toList, Char.isAlphanum),
    (":alpha:]".toList, Char.isAlpha),
    (":blank:]".toList, fun c => c == ' ' || c == '\t'),
    (":cntrl:]".toList, fun c => c.toNat < 32 || c.toNat == 127),
    (":digit:]".toList, Char.isDigit),
    (":graph:]".toList, isGraphic),
    (":lower:]".toList, Char.isLower),
    (":print:]".toList, fun c => c == ' ' || isGraphic c),
    (":punct:]".toList, fun c => isGraphic c && !c.isAlphanum),
    (":space:]".toList, isSpace),
    (":upper:]".toList, Char.isUpper),
    (":xdigit:]".toList, fun c =>
      c.isDigit || ('a' ≤ c && c ≤ 'f') || ('A' ≤ c && c ≤ 'F')) ]

/-- The class at the front of a text and what follows it. -/
def class? (r : Raw) : Option ((Char → Bool) × Raw) :=
  classes.findSome? fun (name, test) =>
    if name.isPrefixOf r then some (test, r.drop name.length) else none

/-- The place of a byte in the order of signed bytes. -/
def rank (c : Char) : Nat := (c.toNat + 128) % 256

/-- Whether a member holds a character. -/
def Member.holds (c : Char) : Member → Bool
  | .range low high => rank low ≤ rank c && rank c ≤ rank high
  | .ofClass test => test c

/-- The members up to the closing bracket and what follows it; a closing bracket in the first
place is a member. -/
def members? : (fuel : Nat) → (first : Bool) → Raw → Option (List Member × Raw)
  | 0, _, _ => none
  | _, _, [] => none
  | fuel + 1, first, c :: rest =>
    if c = ']' ∧ ¬ first then some ([], rest)
    else
      let found := if c = '[' then class? rest else none
      match found with
      | some (test, rest) =>
        (members? fuel false rest).map fun (ms, after) => (.ofClass test :: ms, after)
      | none =>
        match if c = '\\' then rest else c :: rest with
        | [] => none
        | low :: '-' :: '\\' :: high :: rest =>
          (members? fuel false rest).map fun (ms, after) => (.range low high :: ms, after)
        | low :: '-' :: high :: rest =>
          if high = ']' then
            (members? fuel false ('-' :: high :: rest)).map fun (ms, after) =>
              (.range low low :: ms, after)
          else
            (members? fuel false rest).map fun (ms, after) => (.range low high :: ms, after)
        | low :: rest =>
          (members? fuel false rest).map fun (ms, after) => (.range low low :: ms, after)

/-- The brackets behind an opening one and what follows them. -/
def brackets? (r : Raw) : Option (Step × Raw) :=
  let (inverted, r) := match r with
    | '!' :: rest => (true, rest)
    | '^' :: rest => (true, rest)
    | _ => (false, r)
  (members? (r.length + 1) true r).map fun (ms, rest) => (.oneOf inverted ms, rest)

/-- The steps of a pattern, at most `fuel` of them. -/
def stepsFrom : (fuel : Nat) → Raw → List Step
  | 0, _ => []
  | _, [] => []
  | fuel + 1, c :: rest =>
    if c = '?' then .anyOne :: stepsFrom fuel rest
    else if c = '*' then .anyText :: stepsFrom fuel rest
    else if c = '\\' then
      match rest with
      | [] => [.literal c]
      | d :: rest => .literal d :: stepsFrom fuel rest
    else if c = '[' then
      match brackets? rest with
      | some (step, rest) => step :: stepsFrom fuel rest
      | none => .literal c :: stepsFrom fuel rest
    else .literal c :: stepsFrom fuel rest

/-- The steps of a pattern. -/
def steps (pattern : Raw) : List Step := stepsFrom pattern.length pattern

/-- Whether one of the tails of a text passes a test, the whole text and the empty one
included. -/
def anyTail (test : Raw → Bool) : Raw → Bool
  | [] => test []
  | c :: cs => test (c :: cs) || anyTail test cs

/-- Whether steps match a whole text. -/
def follows : List Step → Raw → Bool
  | [], r => r.isEmpty
  | .literal d :: steps, c :: r => c == d && follows steps r
  | .anyOne :: steps, _ :: r => follows steps r
  | .oneOf inverted ms :: steps, c :: r =>
    (ms.any (Member.holds c) != inverted) && follows steps r
  | .anyText :: steps, r => anyTail (follows steps) r
  | _ :: _, [] => false

/-- Whether a pattern matches a text. -/
def isMatch (pattern text : Raw) : Bool := follows (steps pattern) text

/-- The text without the part at its start that a pattern matches, the longest or the
shortest one. -/
def trimStart (longest : Bool) (pattern text : Raw) : Raw :=
  let steps := steps pattern
  let lengths := List.range (text.length + 1)
  let lengths := if longest then lengths.reverse else lengths
  match lengths.find? fun n => follows steps (text.take n) with
  | some n => text.drop n
  | none => text

/-- The text without the part at its end that a pattern matches. -/
def trimEnd (longest : Bool) (pattern text : Raw) : Raw :=
  let steps := steps pattern
  let lengths := List.range (text.length + 1)
  let lengths := if longest then lengths else lengths.reverse
  match lengths.find? fun n => follows steps (text.drop n) with
  | some n => text.take n
  | none => text

/-! ## Names of files -/

/-- Whether a text holds a character that makes it a pattern. -/
def isPattern (r : Raw) : Bool := r.any fun c => c == '*' || c == '?' || c == '['

/-- The order of raw texts by their bytes. -/
def rawLe : Raw → Raw → Bool
  | [], _ => true
  | _ :: _, [] => false
  | a :: as, b :: bs => if a = b then rawLe as bs else a < b

/-- Whether brackets behind an opening one close before a slash. -/
def closes : (fuel : Nat) → Raw → Bool
  | 0, _ => false
  | fuel + 1, r =>
    let r := match r with
      | '\\' :: rest => rest
      | _ => r
    match r with
    | [] => false
    | '/' :: _ => false
    | _ :: ']' :: _ => true
    | _ :: rest => closes fuel rest

/-- The pieces of a path pattern: those before the first one that is a pattern as one text
with its slashes, that piece, and what follows its slash if one follows. There is none if no
piece is a pattern. `front` holds what is behind, the latest first; `piece` is the piece so
far. -/
def split? (front piece : Raw) (special : Bool) : Raw → Option (Raw × Raw × Option Raw)
  | [] => if special then some (front.reverse, piece.reverse, none) else none
  | '\\' :: '/' :: rest =>
    if special then some (front.reverse, piece.reverse, some rest)
    else split? ('/' :: (piece ++ front)) [] false rest
  | '\\' :: c :: rest => split? front (c :: '\\' :: piece) special rest
  | '/' :: rest =>
    if special then some (front.reverse, piece.reverse, some rest)
    else split? ('/' :: (piece ++ front)) [] false rest
  | c :: rest =>
    let opens :=
      if c = '[' then
        let inside := match rest with
          | '!' :: more => more
          | '^' :: more => more
          | _ => rest
        closes (rest.length + 1) inside
      else c = '*' || c = '?'
    split? front (c :: piece) (special || opens) rest

/-- A pattern without its backslashes. -/
def unescaped : Raw → Raw
  | '\\' :: c :: rest => c :: unescaped rest
  | c :: rest => c :: unescaped rest
  | [] => []

/-- The paths that a path pattern matches below a path, given the names in a directory and
whether anything is at a path. A name that opens with a dot is only matched by a pattern that
does. -/
def pathsFrom (names : Raw → Option (List Raw)) (isThere : Raw → Bool) :
    (fuel : Nat) → (base pattern : Raw) → List Raw
  | 0, _, _ => []
  | fuel + 1, base, pattern =>
    match split? [] [] false pattern with
    | none =>
      if base = [] then []
      else
        let path := base ++ unescaped pattern
        if isThere path then [path] else []
    | some (front, piece, rest) =>
      let base := base ++ unescaped front
      let steps := steps piece
      let dotted := (unescaped piece).head? == some '.'
      match names (if base = [] then ['.'] else base) with
      | none => []
      | some below =>
        let found := below.filter fun n =>
          (dotted || n.head? != some '.') && follows steps n
        match rest with
        | none => found.map (base ++ ·)
        | some rest => found.flatMap fun n => pathsFrom names isThere fuel (base ++ n ++ ['/']) rest

/-- The paths that a pattern matches, in order. -/
def paths (names : Raw → Option (List Raw)) (isThere : Raw → Bool) (pattern : Raw) : List Raw :=
  (pathsFrom names isThere (pattern.length + 1) [] pattern).mergeSort rawLe

end Pattern

end NetTrial.Host
