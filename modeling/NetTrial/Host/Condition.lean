import NetTrial.Host.Shell
/-!
# Conditions

A condition is a list of words: tests of one or two operands, joined by negation, conjunction
and disjunction, with parentheses around parts of it. Up to four words are read by their
number first, so that operands may look like operators.
-/

namespace NetTrial.Host.Condition

/-- How many operands an operator has. -/
inductive Arity where
  /-- One, behind it. -/
  | unary
  /-- Two, around it. -/
  | binary
  /-- It joins conditions. -/
  | joiner
  deriving DecidableEq, Repr

/-- The operators. -/
def operators : List (Raw × Arity) :=
  let all (arity : Arity) (names : List String) : List (Raw × Arity) :=
    names.map fun n => (n.toList, arity)
  all .unary
      ["-r", "-w", "-x", "-e", "-f", "-d", "-c", "-b", "-p", "-u", "-g", "-k", "-s", "-t", "-z",
        "-n", "-h", "-L", "-O", "-G", "-S"] ++
    all .binary
      ["=", "!=", "<", ">", "-eq", "-ne", "-ge", "-gt", "-le", "-lt", "-nt", "-ot", "-ef"] ++
    all .joiner ["!", "-a", "-o", "(", ")"]

/-- The arity of a word that is an operator. -/
def arity? (r : Raw) : Option Arity := operators.lookup r

/-- What a word is at its place. -/
inductive Lexeme where
  /-- The end of the condition. -/
  | stop
  /-- An operand. -/
  | operand
  /-- An operator. -/
  | operator (name : Raw) (arity : Arity)
  deriving DecidableEq, Repr

/-- What the word at a place is. An operator of one operand is an operand itself at the end
and in front of an operator of two, and so is an opening parenthesis at the end. -/
def lexemeAt (words : List Raw) (i : Nat) : Lexeme :=
  match words[i]? with
  | none => .stop
  | some w =>
    match arity? w with
    | none => .operand
    | some .unary =>
      match words[i + 1]?, words[i + 2]? with
      | none, _ => .operand
      | some _, none => .operator w .unary
      | some next, some _ => if arity? next = some .binary then .operand else .operator w .unary
    | some arity =>
      if w = ['('] ∧ words[i + 1]?.isNone then .operand else .operator w arity

section

variable (s : Shell) (words : List Raw)

/-- A step of reading a condition; the state is the place. -/
abbrev Eval (α : Type) := StateT Nat (Except String) α

/-- The number that an operand spells. -/
def number (r : Raw) : Except String Int :=
  match wholeNumber? (some 10) r with
  | some n => .ok n
  | none => .error ("Illegal number: " ++ shown r)

/-- A test of one operand. -/
def testOne (name operand : Raw) : Except String Bool := do
  let letter := name.getD 1 ' '
  if letter = 'z' then return operand.isEmpty
  if letter = 'n' then return !operand.isEmpty
  if letter = 't' then
    let _ ← number operand
    return false
  return match s.find operand with
    | .nothing _ => false
    | .directory => "edrwxsOG".toList.contains letter
    | .device => "ecrwOG".toList.contains letter
    | .program _ => "efrwxsOG".toList.contains letter
    | .file location bytes =>
      "efrwOG".toList.contains letter || (letter == 's' && !bytes.isEmpty) ||
        (letter == 'x' && s.runnable.contains location)

/-- Whether two names lead to one file. -/
def isSame (a b : Raw) : Bool :=
  match s.find a, s.find b with
  | .file l _, .file m _ => l == m
  | .directory, .directory => a == b
  | _, _ => false

/-- Whether a file was changed after another one; the files are kept in that order. -/
def isNewer (a b : Raw) : Bool :=
  let order (r : Raw) : Option Nat := match s.find r with
    | .nothing _ => none
    | .file location _ => some ((s.files.entries.findIdx fun e => e.1 == location) + 1)
    | _ => some 0
  match order a, order b with
  | some i, some j => j < i
  | _, _ => false

/-- A test of two operands. -/
def testTwo (name a b : Raw) : Except String Bool := do
  if name = "=".toList then return a == b
  if name = "!=".toList then return a != b
  if name = "<".toList then return decide (a < b)
  if name = ">".toList then return decide (b < a)
  if name = "-nt".toList then return isNewer s a b
  if name = "-ot".toList then return isNewer s b a
  if name = "-ef".toList then return isSame s a b
  let m ← number a
  let n ← number b
  return if name = "-eq".toList then m == n
    else if name = "-ne".toList then m != n
    else if name = "-ge".toList then decide (n ≤ m)
    else if name = "-gt".toList then decide (n < m)
    else if name = "-le".toList then decide (m ≤ n)
    else decide (m < n)

/-- Goes forward by some places. -/
def forward (n : Nat) : Eval Unit := modify (· + n)

/-- What the word so many places on is. -/
def ahead (n : Nat) : Eval Lexeme := return lexemeAt words ((← get) + n)

/-- The word at the current place. -/
def word : Eval Raw := return words.getD (← get) []

mutual

/-- Conditions of which one has to hold, from the word that is read. -/
def disjunction : (fuel : Nat) → Lexeme → Eval Bool
  | 0, _ => return false
  | fuel + 1, l => do
    let a ← conjunction fuel l
    match ← ahead words 1 with
    | .operator ['-', 'o'] _ =>
      forward 2
      let b ← disjunction fuel (← ahead words 0)
      return a || b
    | _ => return a

/-- Conditions that all have to hold. -/
def conjunction : (fuel : Nat) → Lexeme → Eval Bool
  | 0, _ => return false
  | fuel + 1, l => do
    let a ← negation fuel l
    match ← ahead words 1 with
    | .operator ['-', 'a'] _ =>
      forward 2
      let b ← conjunction fuel (← ahead words 0)
      return a && b
    | _ => return a

/-- A condition that may be negated. -/
def negation : (fuel : Nat) → Lexeme → Eval Bool
  | 0, _ => return false
  | fuel + 1, l => do
    match l with
    | .operator ['!'] _ =>
      let next ← ahead words 1
      if next ≠ .stop then forward 1
      return !(← negation fuel next)
    | l => primary fuel l

/-- A test, or a condition in parentheses. -/
def primary : (fuel : Nat) → Lexeme → Eval Bool
  | 0, _ => return false
  | fuel + 1, l => do
    match l with
    | .stop => return false
    | .operator ['('] _ =>
      forward 1
      match ← ahead words 0 with
      | .operator [')'] _ => return false
      | next =>
        let a ← disjunction fuel next
        forward 1
        match ← ahead words 0 with
        | .operator [')'] _ => return a
        | _ => throw "closing paren expected"
    | .operator name .unary =>
      forward 1
      if words[← get]?.isNone then throw (shown name ++ ": argument expected")
      testOne s name (← word words)
    | _ =>
      let a ← word words
      match ← ahead words 1 with
      | .operator name .binary =>
        forward 2
        if words[← get]?.isNone then throw (shown name ++ ": argument expected")
        testTwo s name a (← word words)
      | _ => return !a.isEmpty

end

end

/-- The value of a whole condition from a word that is read. Words behind it are a fault. -/
def whole (s : Shell) (words : List Raw) (first : Lexeme) : Except String Bool := do
  let (a, place) ← (disjunction s words (2 * words.length + 8) first).run 0
  match words[place]?, words[place + 1]? with
  | some w, some _ => throw ((if w = [] then "" else shown w ++ ": ") ++ "unexpected operator")
  | _, _ => return a

/-- Whether a condition holds, or why it is none. -/
def value (s : Shell) : List Raw → Except String Bool
  | [] => .ok false
  | w :: rest =>
    let words := w :: rest
    let isBinary := words.length = 3 ∧ (words[1]?.bind arity?) = some .binary
    if isBinary then whole s words .operand
    else if words.length = 3 ∨ words.length = 4 then
      if w = ['('] ∧ words.getLast? = some [')'] then
        whole s rest.dropLast (lexemeAt rest.dropLast 0)
      else if w = ['!'] then (value s rest).map (!·)
      else whole s words (lexemeAt words 0)
    else whole s words (lexemeAt words 0)

end NetTrial.Host.Condition
