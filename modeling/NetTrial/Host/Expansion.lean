import NetTrial.Host.Shell
import NetTrial.Host.Pattern
import NetTrial.Host.Arithmetic
/-!
# The expansion of words

The parts of a word are replaced by what they stand for. The result is a sequence of atoms in
regions: a region tells whether its atoms are split into fields. From the regions a word
becomes one text, a pattern, or a list of fields, and fields that are patterns become the
names of the files that they match.
-/

namespace NetTrial.Host

/-! ## Regions -/

/-- A piece of a text that is being expanded. -/
inductive Atom where
  /-- A character; whether it stands for itself in a pattern. -/
  | char (c : Char) (quoted : Bool)
  /-- A place where a quotation opens or closes. -/
  | mark
  /-- A place between two positional parameters. -/
  | gap
  deriving DecidableEq, Repr

/-- How a region is split. -/
inductive Region where
  /-- Not at all. -/
  | whole
  /-- At separators and gaps. -/
  | split
  /-- At gaps only. -/
  | gaps
  deriving DecidableEq, Repr

/-- A text that is expanded: atoms in their regions. -/
abbrev Expanded := List (Region × List Atom)

/-- The atoms of a text. -/
def atomsOf (quoted : Bool) (r : Raw) : List Atom := r.map fun c => .char c quoted

/-- All atoms of a text that is expanded. -/
def Expanded.atoms (e : Expanded) : List Atom := e.flatMap Prod.snd

/-- The characters of some atoms. -/
def charsOf (atoms : List Atom) : Raw := atoms.filterMap fun a =>
  match a with
  | .char c _ => some c
  | _ => none

/-- The pattern that some atoms spell: what is quoted stands behind a backslash, unless an
unquoted backslash is in front of it already. -/
def patternOf (atoms : List Atom) : Raw := go true atoms
where
  /-- The pattern of the rest; `free` tells whether no backslash is in front of it. -/
  go (free : Bool) : List Atom → Raw
    | [] => []
    | .char c quoted :: rest =>
      if c = '\\' ∧ ¬ quoted then c :: go false rest
      else if quoted ∧ free then '\\' :: c :: go true rest
      else c :: go true rest
    | _ :: rest => go true rest

/-! ## Fields -/

/-- The state of splitting. -/
structure Splitting where
  /-- The fields so far, the latest first. -/
  fields : List (List Atom) := []
  /-- The field that is being read, the latest atom first. -/
  current : List Atom := []
  /-- How many fields may still be read, if there is a limit. -/
  left : Option Nat := none
  /-- How much of the last field counts. -/
  cut : Option Nat := none
  /-- Whether the last separator was a blank. -/
  blank : Bool := false
  /-- Whether blanks behind a separator are passed over. -/
  passing : Bool := false
  /-- Whether the last region was split at gaps only. -/
  gaps : Bool := false

namespace Splitting

/-- Whether an atom separates fields of a region, and whether it is a blank. -/
def kindOf (separators : Raw) (region : Region) : Atom → Bool × Bool
  | .gap => (true, true)
  | .mark => (false, false)
  | .char c _ =>
    let isSeparator := region == .split && separators.contains c
    (isSeparator, isSeparator && (c == ' ' || c == '\t' || c == '\n'))

/-- One more atom. The `strict` regions are those where every separator counts. -/
def step (strict : Bool) (kind : Atom → Bool × Bool) (s : Splitting) (a : Atom) : Splitting :=
  let (isSeparator, isBlank) := kind a
  if s.passing ∧ isSeparator ∧ (isBlank ∨ s.blank) then { s with blank := s.blank && isBlank }
  else
    let s := { s with passing := false }
    if s.left = some 0 then
      let s := { s with current := a :: s.current }
      if isBlank then { s with cut := s.cut.or (some (s.current.length - 1)) }
      else if isSeparator ∧ s.blank then { s with blank := false }
      else { s with blank := false, cut := none }
    else if isSeparator then
      let s := if strict then s else { s with blank := isBlank }
      if s.current = [] ∧ s.blank then s
      else if s.left = some 1 then
        { s with left := some 0, cut := some s.current.length, current := a :: s.current }
      else
        { s with
          fields := s.current.reverse :: s.fields, current := [], passing := !strict
          left := s.left.map (· - 1) }
    else { s with current := a :: s.current }

/-- The atoms of a region. -/
def region (separators : Raw) (s : Splitting) (r : Region) (atoms : List Atom) : Splitting :=
  match r with
  | .whole => { s with current := atoms.reverse ++ s.current, passing := false }
  | r =>
    let strict := s.gaps || r == .gaps
    let s := { s with gaps := r == .gaps, blank := false, passing := false }
    atoms.foldl (step strict (kindOf separators r)) s

/-- The fields at the end. -/
def finish (s : Splitting) : List (List Atom) :=
  let last := s.current.reverse
  let last := match s.cut with
    | some n => last.take n
    | none => last
  (if last = [] ∧ ¬ s.gaps then s.fields else last :: s.fields).reverse

end Splitting

/-- The fields of a text that is expanded; there may be a limit on their number. -/
def Expanded.fields (separators : Raw) (limit : Option Nat) (e : Expanded) : List (List Atom) :=
  (e.foldl (fun s (r, atoms) => s.region separators r atoms)
    ({ left := limit } : Splitting)).finish

/-! ## Home directories -/

/-- The directory that a name behind a tilde stands for. -/
def homeOf (s : Shell) (name : Raw) : Option Raw :=
  if name = [] then s.value? "HOME".toList
  else if name = "root".toList then some "/root".toList else none

/-- The name behind a tilde and what follows it, unless a part of it is quoted. -/
def tildeName? (colons : Bool) : Word → Option (Raw × Word)
  | [] => some ([], [])
  | .char c false :: rest =>
    if c = '/' ∨ (colons ∧ c = ':') then some ([], .char c false :: rest)
    else (tildeName? colons rest).map fun (name, rest) => (c :: name, rest)
  | _ => none

/-- The directory that a tilde in front of a word stands for, and how many parts of the word
spell it. -/
def homeAtFront (s : Shell) (colons : Bool) : Word → Raw × Nat
  | .char '~' false :: rest =>
    match tildeName? colons rest with
    | some (name, after) =>
      match homeOf s name with
      | some home => (home, rest.length + 1 - after.length)
      | none => ([], 0)
    | none => ([], 0)
  | _ => ([], 0)

/-- A word whose tilde in front is replaced. -/
def tildeAtFront (s : Shell) (colons : Bool) (w : Word) : Word :=
  let (home, count) := homeAtFront s colons w
  home.map (fun c => .char c true) ++ w.drop count

/-- A word whose tildes behind colons are replaced. -/
def tildesBehind (s : Shell) : Word → Word
  | [] => []
  | .char ':' false :: rest => .char ':' false :: tildeAtFront s true (tildesBehind s rest)
  | p :: rest => p :: tildesBehind s rest

/-- The value of an assignment with its tildes replaced: in front and behind each colon. -/
def tildesOfValue (s : Shell) (w : Word) : Word := tildeAtFront s true (tildesBehind s w)

/-! ## Parameters -/

/-- How a word is expanded. -/
structure Manner where
  /-- Whether it becomes fields. -/
  fields : Bool := false
  /-- Whether it stands in quotes. -/
  quoted : Bool := false
  /-- Whether it is the word of a parameter. -/
  inner : Bool := false
  /-- Whether it is a part of a document, where quotation marks quote characters alone. -/
  document : Bool := false

/-- Whether what stands in place of a part is quoted. -/
def Manner.quotes (m : Manner) (quoted : Bool) : Bool :=
  m.quoted || (quoted && !m.document)

/-- The letters of the options in the order in which they are shown. -/
def optionLetters : Raw := "ubaCEVvxsnmiIfe".toList

/-- Positional parameters with something between them. -/
def joinArgs (quoted : Bool) (between : List Atom) : List Raw → List Atom
  | [] => []
  | [r] => atomsOf quoted r
  | r :: rest => atomsOf quoted r ++ between ++ joinArgs quoted between rest

/-- The value of a parameter. -/
def parameterValue (s : Shell) (m : Manner) (quoted : Bool) (name : Raw) : Option (List Atom) :=
  let number (n : Nat) : Option (List Atom) := some (atomsOf quoted (decimal n))
  match name with
  | ['$'] => number s.process
  | ['?'] => number s.status
  | ['#'] => number s.args.length
  | ['!'] => s.lastProcess.bind number
  | ['-'] => some (atomsOf quoted (optionLetters.filter s.options.contains))
  | ['@'] => some (joinArgs quoted (between m.fields) s.args)
  | ['*'] => some (joinArgs quoted (between (m.fields && !quoted)) s.args)
  | ['0'] => some (atomsOf quoted s.name)
  | c :: _ =>
    let value :=
      if c.isDigit then
        let (n, _) := takeDigits 10 0 name.length name
        if n = 0 then some s.name else s.args[n - 1]?
      else s.value? name
    value.map (atomsOf quoted)
  | [] => none
where
  /-- What stands between positional parameters. -/
  between (apart : Bool) : List Atom :=
    if apart then [.gap] else atomsOf quoted (s.separators.take 1)

/-- The region that the value of a parameter is in. -/
def parameterRegion (s : Shell) (quoted : Bool) (name : Raw) : Region :=
  if ¬ quoted then .split else if name = ['@'] ∧ ¬ s.args.isEmpty then .gaps else .whole

/-- The complaint on a parameter that has no value. -/
def notSet (name : Raw) (orNull : Bool) : String :=
  shown name ++ ": parameter not set" ++ (if orNull then " or null" else "")

/-- Variables as arithmetic sees them. -/
def shellVariables : Arithmetic.Variables Shell where
  value s name := s.value? name
  assign s name value :=
    match ((Shell.setValue name value).run.run s) with
    | (.ok (), s) => .ok s
    | (.error _, _) => .error (shown name ++ ": is read only")

/-- The text that a command has printed as a part of a word: without line ends behind it and
without zero characters. -/
def outputText (r : Raw) : Raw :=
  ((r.filter (· ≠ Char.ofNat 0)).reverse.dropWhile (· = '\n')).reverse

section

variable (run : Option Command → Act Raw)

mutual

/-- What a part of a word stands for. -/
def expandPart (m : Manner) : Part → Act Expanded
  | .char c quoted =>
    let region := if m.inner ∧ ¬ m.quoted ∧ ¬ quoted then Region.split else .whole
    return [(region, [.char c quoted])]
  | .mark => return [(.whole, [.mark])]
  | .bad => Shell.fail "Bad substitution"
  | .output body quoted => do
    let quoted := m.quotes quoted
    let text := outputText (← run body)
    return [(if quoted then .whole else .split, atomsOf quoted text)]
  | .arithmetic word quoted => do
    let quoted := m.quotes quoted
    let e ← expandParts { quoted := true } 0 word
    match Arithmetic.value shellVariables (charsOf e.atoms) (← get) with
    | .error message => Shell.fail message
    | .ok (n, s) =>
      set s
      return [(if quoted then .whole else .split, atomsOf quoted (decimal n.toInt))]
  | .parameter name usage word quoted => do
    let quoted := m.quotes quoted
    let s ← get
    let value := parameterValue s m quoted name
    let region := parameterRegion s quoted name
    let given (orNull : Bool) : Bool := match value with
      | none => false
      | some atoms => !orNull || !atoms.isEmpty
    let held (atoms : Option (List Atom)) : Expanded := match atoms with
      | none => []
      | some atoms => [(region, atoms)]
    let needed : Act (Option (List Atom)) := do
      if value.isNone ∧ s.isOn 'u' then Shell.fail (notSet name false)
      return value
    let (home, count) := homeAtFront s true word
    let front : Expanded := [(.whole, atomsOf true home)]
    match usage with
    | .plain => return held (← needed)
    | .length =>
      let _ ← needed
      let length := ((parameterValue s {} quoted name).getD []).length
      return [(region, atomsOf quoted (decimal length))]
    | .default orNull =>
      if given orNull then return held value
      else return front ++ (← expandParts { m with quoted := quoted, inner := true } count word)
    | .replace orNull =>
      if given orNull then
        return front ++ (← expandParts { m with quoted := quoted, inner := true } count word)
      else return []
    | .assign orNull =>
      if given orNull then return held value
      else
        let e ← expandParts { quoted := quoted, document := m.document } count word
        Shell.setValue name (home ++ charsOf e.atoms)
        return held (parameterValue (← get) m quoted name)
    | .require orNull =>
      if given orNull then return held value
      else if word.isEmpty then Shell.fail (notSet name orNull)
      else
        let e ← expandParts { quoted := quoted, document := m.document } count word
        Shell.fail (shown (name ++ [':', ' '] ++ home ++ charsOf e.atoms))
    | .trim atEnd longest =>
      match ← needed with
      | none => return []
      | some atoms =>
        let e ← expandParts { document := m.document } count word
        let pattern := patternOf (atomsOf true home ++ e.atoms)
        let text := atoms.map fun a => match a with
          | .char c _ => c
          | _ => Char.ofNat 0
        let rest :=
          if atEnd then Pattern.trimEnd longest pattern text
          else Pattern.trimStart longest pattern text
        return [(region, if atEnd then atoms.take rest.length
          else atoms.drop (atoms.length - rest.length))]

/-- What the parts of a word stand for, some of them passed over. -/
def expandParts (m : Manner) : (passed : Nat) → List Part → Act Expanded
  | _, [] => return []
  | passed + 1, _ :: rest => expandParts m passed rest
  | 0, p :: rest => do
    let e ← expandPart m p
    return e ++ (← expandParts m 0 rest)

end

/-! ## Words -/

/-- The text of a word that is not split. -/
def textOfWord (w : Word) : Act Raw := do
  let e ← expandParts run {} 0 (tildeAtFront (← get) false w)
  return charsOf e.atoms

/-- The text of the value of an assignment. -/
def textOfValue (w : Word) : Act Raw := do
  let e ← expandParts run {} 0 (tildesOfValue (← get) w)
  return charsOf e.atoms

/-- The text of a document in the script. -/
def textOfDocument (w : Word) : Act Raw := do
  let e ← expandParts run { quoted := true, document := true } 0 w
  return charsOf e.atoms

/-- The pattern that a word spells. -/
def patternOfWord (w : Word) : Act Raw := do
  let e ← expandParts run {} 0 (tildeAtFront (← get) false w)
  return patternOf e.atoms

/-- The fields of a word. -/
def fieldsOfWord (w : Word) : Act (List Raw) := do
  let e ← expandParts run { fields := true } 0 (tildeAtFront (← get) false w)
  let s ← get
  let name (field : List Atom) : List Raw :=
    let pattern := patternOf field
    let special := field.any fun a => match a with
      | .char c quoted => !quoted && Pattern.isPattern [c]
      | _ => false
    let found :=
      if s.isOn 'f' ∨ ¬ special then [] else Pattern.paths s.namesIn s.isThere pattern
    if found.isEmpty then [charsOf field] else found
  return (e.fields s.separators none).flatMap name

/-- The text of a word, as a value if it is an assignment. -/
def textOfDeclaration (w : Word) : Act (List Raw) := do
  match assignment? w with
  | some (name, value) => return [name ++ '=' :: (← textOfValue run value)]
  | none => fieldsOfWord run w

end

end NetTrial.Host
