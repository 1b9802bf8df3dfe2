import NetTrial.Host.Syntax
/-!
# Reading scripts

A script is read line by line: one reading step gives the commands of a line and, when a
command spans lines, of all the lines that it spans. What a word holds is read right away,
down to the commands inside of it. Texts that stand in the script behind the line that names
them are read at the end of that line and kept under a number.
-/

namespace NetTrial.Host

/-- A text in the script that a line has named and that is still to come. -/
structure Awaited where
  /-- Its number. -/
  number : Nat
  /-- The line that ends it. -/
  mark : Raw
  /-- Whether it is taken as it stands. -/
  literal : Bool
  /-- Whether tabs in front of its lines are dropped. -/
  dropTabs : Bool
  deriving Inhabited

/-- An abbreviation that is being read in place of its name. -/
structure OpenAlias where
  /-- The name. -/
  name : Raw
  /-- How much input is left behind it. -/
  behind : Nat
  /-- Whether the word behind it may be a name of an abbreviation too. -/
  continues : Bool

/-- The state of reading. -/
structure Source where
  /-- The input that is left. -/
  rest : Raw
  /-- The line. -/
  line : Nat := 1
  /-- A token that is read again. -/
  returned : Option Token := none
  /-- The last token. -/
  last : Token := .eof
  /-- The texts that are still to come, in order. -/
  awaited : List Awaited := []
  /-- The texts so far by number. -/
  documents : List (Nat × Word) := []
  /-- How many texts have been named. -/
  count : Nat := 0
  /-- The abbreviations. -/
  aliases : List (Raw × Raw) := []
  /-- The abbreviations that are being read. -/
  opened : List OpenAlias := []
  /-- Whether a dollar sign stands for itself. -/
  plainDollar : Bool := false

/-- A step of reading. -/
abbrev Reading (α : Type) := StateT Source (Except SyntaxFault) α

namespace Reading

/-! ## Characters -/

/-- Ends reading with a fault on the current line. -/
def fail {α : Type} (message : String) : Reading α := do
  throw ⟨"Syntax error: " ++ message, (← get).line⟩

/-- The input without joined lines at its front, and the line that follows. -/
def dropJoins : Raw → Nat → Raw × Nat
  | '\\' :: '\n' :: cs, line => dropJoins cs (line + 1)
  | cs, line => (cs, line)

/-- Leaves out joined lines. -/
def skipJoins : Reading Unit := modify fun s =>
  let (rest, line) := dropJoins s.rest s.line
  { s with rest := rest, line := line }

/-- Takes the next character as it stands. -/
def next? : Reading (Option Char) := do
  let s ← get
  match s.rest with
  | [] => return none
  | c :: cs =>
    set { s with rest := cs, line := if c = '\n' then s.line + 1 else s.line }
    return some c

/-- The next character behind joined lines. -/
def peek? : Reading (Option Char) := do
  skipJoins
  return (← get).rest.head?

/-- Takes the next character behind joined lines. -/
def take? : Reading (Option Char) := do
  skipJoins
  next?

/-- Takes the next character if it is a given one. -/
def accept (c : Char) : Reading Bool := do
  if (← peek?) = some c then
    let _ ← next?
    return true
  else return false

/-- Takes characters as long as they pass a test. -/
def takeWhile (test : Char → Bool) : (fuel : Nat) → Reading Raw
  | 0 => return []
  | fuel + 1 => do
    match ← peek? with
    | some c =>
      if test c then
        let _ ← next?
        return c :: (← takeWhile test fuel)
      else return []
    | none => return []

/-- Gives a token back. -/
def giveBack (t : Token) : Reading Unit := modify fun s => { s with returned := some t }

/-- Ends reading at the last token. -/
def unexpected {α : Type} : Reading α := do
  fail ((← get).last.spelling ++ " unexpected")

/-- Ends reading at the last token where another one is due. -/
def expecting {α : Type} (due : Token) : Reading α := do
  fail ((← get).last.spelling ++ " unexpected (expecting " ++ due.spelling ++ ")")

/-! ## Words -/

/-- What surrounds a character. -/
inductive Mode where
  /-- Nothing: the word ends at a character that separates words. -/
  | bare
  /-- Braces outside of quotes. -/
  | brace
  /-- Double quotes; whether they stand in braces. -/
  | quotes (inBrace : Bool)
  /-- Braces inside double quotes; whether quotes are open in them. -/
  | quotedBrace (inner : Bool)
  /-- Arithmetic, so many parentheses deep. -/
  | arithmetic (depth : Nat)
  /-- A text in the script. -/
  | document
  deriving DecidableEq

namespace Mode

/-- Whether what stands here is quoted. -/
def isQuoted : Mode → Bool
  | .bare | .brace => false
  | _ => true

/-- Whether a word ends before a character. -/
def endsBefore (mode : Mode) (c : Char) : Bool :=
  mode = .bare && [' ', '\t', '\n', ';', '&', '|', '<', '>', '(', ')'].contains c

/-- Whether a character closes what is open. -/
def isClosedBy (mode : Mode) (c : Char) : Bool :=
  match mode with
  | .brace | .quotedBrace false => c == '\x7d'
  | .quotes _ => c == '"'
  | _ => false

/-- Whether a backslash in quotes is dropped before a character. -/
def escapes (mode : Mode) (c : Char) : Bool :=
  c == '\\' || c == '\x60' || c == '$' || (c == '"' && mode != .document) ||
    (c == '\x7d' && (mode == .quotes true || mode == .quotedBrace true ||
      mode == .quotedBrace false))

/-- What is missing when the input ends here. -/
def missing? : Mode → Option String
  | .bare | .document => none
  | .brace => some "Missing '\x7d'"
  | .arithmetic _ => some "Missing '))'"
  | _ => some "Unterminated quoted string"

/-- What surrounds the word of a parameter in braces. -/
def inBraces (mode : Mode) : Mode := if mode.isQuoted then .quotedBrace false else .brace

end Mode

/-- Whether a character names a special parameter. -/
def isSpecial (c : Char) : Bool := ['!', '#', '$', '-', '?', '@', '*'].contains c || c.isDigit

/-- The parts read so far, the latest first, behind a closing quote. All positional parameters
in quotes of their own are nothing when there are none, so these quotes leave no mark. -/
def closeQuotes : List Part → List Part
  | .parameter ['@'] .plain word true :: .mark :: before =>
    .parameter ['@'] .plain word true :: before
  | read => .mark :: read

/-- The text up to the next single quote. -/
def singleQuoted : (fuel : Nat) → Reading Word
  | 0 => return []
  | fuel + 1 => do
    match ← next? with
    | none => fail "Unterminated quoted string"
    | some '\x27' => return []
    | some c => return .char c true :: (← singleQuoted fuel)

/-- The text of an old output substitution, its escapes undone. -/
def backquoted (inQuotes : Bool) : (fuel : Nat) → Reading Raw
  | 0 => return []
  | fuel + 1 => do
    match ← take? with
    | none => fail "EOF in backquote substitution"
    | some '\x60' => return []
    | some '\\' =>
      match ← next? with
      | none => fail "EOF in backquote substitution"
      | some c =>
        let more ← backquoted inQuotes fuel
        if c = '\\' ∨ c = '\x60' ∨ c = '$' ∨ (inQuotes ∧ c = '"') then return c :: more
        else return '\\' :: c :: more
    | some c => return c :: (← backquoted inQuotes fuel)

/-! ## Texts in the script -/

/-- The first line, with the lines joined to it unless the text is literal, and what follows
its end if it has one. -/
def logicalLine (literal : Bool) : Raw → Raw × Option Raw
  | [] => ([], none)
  | '\n' :: cs => ([], some cs)
  | '\\' :: c :: cs =>
    if literal ∧ c = '\n' then (['\\'], some cs)
    else
      let (line, rest) := logicalLine literal cs
      ('\\' :: c :: line, rest)
  | c :: cs =>
    let (line, rest) := logicalLine literal cs
    (c :: line, rest)

/-- A text in the script and the input behind it, at most `fuel` lines. -/
def documentText (a : Awaited) : (fuel : Nat) → Raw → Raw × Raw
  | 0, text => ([], text)
  | fuel + 1, text =>
    let text := if a.dropTabs then text.dropWhile (· = '\t') else text
    if text = [] then ([], [])
    else
      let (line, rest) := logicalLine a.literal text
      if line = a.mark then ([], rest.getD [])
      else match rest with
        | none => (line, [])
        | some rest =>
          let (more, rest) := documentText a fuel rest
          (line ++ '\n' :: more, rest)

/-! ## Tokens -/

/-- What a token may be besides what it looks like. -/
structure Expect where
  /-- Whether ends of lines are passed over. -/
  newlines : Bool := false
  /-- Whether words are looked up among the reserved ones. -/
  keywords : Bool := false
  /-- Whether words are looked up among the abbreviations. -/
  aliases : Bool := false

/-- A place where a command may begin, also on a later line. -/
def Expect.command : Expect := ⟨true, true, true⟩

/-- The input without blanks and comments at its front. -/
def dropBlanks : Raw → Nat → (comment : Bool) → Raw × Nat
  | [], line, _ => ([], line)
  | '\n' :: cs, line, _ => ('\n' :: cs, line)
  | '\\' :: '\n' :: cs, line, false => dropBlanks cs (line + 1) false
  | ' ' :: cs, line, comment => dropBlanks cs line comment
  | '\t' :: cs, line, comment => dropBlanks cs line comment
  | '#' :: cs, line, _ => dropBlanks cs line true
  | c :: cs, line, comment => if comment then dropBlanks cs line true else (c :: cs, line)

/-- Leaves out blanks and comments, and tells whether an abbreviation that continues has
ended. -/
def skipBlanks : Reading Bool := do
  let s ← get
  let (rest, line) := dropBlanks s.rest s.line false
  let left := rest.length
  let (closed, opened) := s.opened.partition fun a => left ≤ a.behind
  set { s with rest := rest, line := line, opened := opened }
  return closed.any (·.continues)

/-- The token of a redirection sign for a stream. -/
def redirection (stream : Option Nat) : Reading Token := do
  match ← take? with
  | some '>' =>
    let stream := stream.getD 1
    if ← accept '>' then return .redirect stream .append
    else if ← accept '|' then return .redirect stream .overwrite
    else if ← accept '&' then return .redirect stream .sameOutput
    else return .redirect stream .output
  | _ =>
    let stream := stream.getD 0
    if ← accept '<' then return .document stream (← accept '-')
    else if ← accept '&' then return .redirect stream .sameInput
    else if ← accept '>' then return .redirect stream .both
    else return .redirect stream .input

/-- The kinds of lists of commands. -/
inductive ListKind where
  /-- The commands of a line. -/
  | line
  /-- The commands between reserved words; at least one. -/
  | needed
  /-- Commands that may be missing. -/
  | optional
  deriving DecidableEq

/-- The names of the built-in commands whose failure ends a script. -/
def specialNames : List String :=
  [ ".", ":", "break", "continue", "eval", "exec", "exit", "export", "local", "readonly", "return",
    "set", "shift", "times", "trap", "unset" ]

/-- A command that is not waited for. -/
def inBackground (line : Nat) : Command → Command
  | .pipeline commands _ => .pipeline commands true
  | .redirected line body redirections => .background line body redirections
  | c => .background line c []

/-- One command after another that may be missing. -/
def inSequence (first : Option Command) (second : Command) : Option Command :=
  match first with
  | none => some second
  | some first => some (.sequence first second)

mutual

/-- The parts of a word, the latest first, behind those read so far, and whether any of it is
quoted. -/
def wordFrom : (fuel : Nat) → Mode → (read : List Part) → (quoted : Bool) → Reading (List Part × Bool)
  | 0, _, read, quoted => return (read, quoted)
  | fuel + 1, mode, read, quoted => do
    match ← peek? with
    | none =>
      match mode.missing? with
      | some what => fail what
      | none => return (read, quoted)
    | some c =>
      if mode.endsBefore c then return (read, quoted)
      let _ ← next?
      if mode.isClosedBy c then return (read, quoted)
      if c = '\\' then
        match ← next? with
        | none => wordFrom fuel mode (.char '\\' true :: read) quoted
        | some d =>
          if mode.isQuoted ∧ ¬ mode.escapes d then
            wordFrom fuel mode (.char d true :: .char '\\' true :: read) true
          else wordFrom fuel mode (.char d true :: read) true
      else if c = '\x27' ∧ ¬ mode.isQuoted then
        let inner ← singleQuoted ((← get).rest.length + 1)
        wordFrom fuel mode (.mark :: (inner.reverse ++ .mark :: read)) true
      else if c = '"' ∧ ¬ mode.isQuoted then
        let (read, _) ← wordFrom fuel (.quotes (mode = .brace)) (.mark :: read) true
        wordFrom fuel mode (closeQuotes read) true
      else if c = '"' ∧ mode = .quotedBrace false then
        wordFrom fuel (.quotedBrace true) (.mark :: read) true
      else if c = '"' ∧ mode = .quotedBrace true then
        wordFrom fuel (.quotedBrace false) (.mark :: read) true
      else if c = '$' then
        let part ← dollar fuel mode
        wordFrom fuel mode (part :: read) quoted
      else if c = '\x60' ∧ ¬ (← get).plainDollar then
        let text ← backquoted mode.isQuoted ((← get).rest.length + 1)
        let s ← get
        set { s with rest := text, line := 1, returned := none, awaited := [], opened := [] }
        let body ← list fuel .optional true none
        modify fun after =>
          { after with
            rest := s.rest, line := s.line, returned := none, awaited := s.awaited,
            opened := s.opened }
        wordFrom fuel mode (.output body mode.isQuoted :: read) quoted
      else match mode with
        | .arithmetic depth =>
          if c = '(' then wordFrom fuel (.arithmetic (depth + 1)) (.char c true :: read) quoted
          else if c = ')' then
            if 0 < depth then wordFrom fuel (.arithmetic (depth - 1)) (.char c true :: read) quoted
            else if ← accept ')' then return (read, quoted)
            else wordFrom fuel mode (.char c true :: read) quoted
          else wordFrom fuel mode (.char c true :: read) quoted
        | _ => wordFrom fuel mode (.char c mode.isQuoted :: read) quoted

/-- What a dollar sign opens. -/
def dollar : (fuel : Nat) → Mode → Reading Part
  | 0, _ => return .mark
  | fuel + 1, mode => do
    let quoted := mode.isQuoted
    match ← peek? with
    | none => return .char '$' quoted
    | some c =>
      if (← get).plainDollar then return .char '$' quoted
      else if c = '(' then
        let _ ← next?
        if ← accept '(' then
          let (word, _) ← wordFrom fuel (.arithmetic 0) [] false
          return .arithmetic word.reverse quoted
        else
          let s ← get
          set { s with awaited := [] }
          let body ← list fuel .optional true none
          match ← token fuel {} with
          | .closing =>
            modify fun after => { after with awaited := s.awaited }
            return .output body quoted
          | _ => expecting .closing
      else if c = '\x7b' then
        let _ ← next?
        braced fuel mode
      else if isNameStart c then
        return .parameter (← takeWhile isNameChar (← get).rest.length) .plain [] quoted
      else if isSpecial c then
        let _ ← next?
        return .parameter [c] .plain [] quoted
      else return .char '$' quoted

/-- What a dollar sign and an opening brace open. -/
def braced : (fuel : Nat) → Mode → Reading Part
  | 0, _ => return .mark
  | fuel + 1, mode => do
    match ← peek? with
    | none => wrong fuel mode
    | some c =>
      let length := (← get).rest.length
      if isNameStart c then
        let name ← takeWhile isNameChar length
        usage fuel mode name (← take?)
      else if c.isDigit then
        let name ← takeWhile Char.isDigit length
        usage fuel mode name (← take?)
      else if c = '\x7d' then wrong fuel mode
      else
        let _ ← next?
        if c = '#' then
          match ← peek? with
          | none => wrong fuel mode
          | some d =>
            if isNameChar d then
              let name ← if d.isDigit then do
                let _ ← next?
                pure [d]
              else takeWhile isNameChar length
              if ← accept '\x7d' then return .parameter name .length [] mode.isQuoted
              else wrong fuel mode
            else
              let _ ← next?
              if d ≠ '\x7d' ∧ (← peek?) = some '\x7d' then
                if isSpecial d then
                  let _ ← next?
                  return .parameter [d] .length [] mode.isQuoted
                else wrong fuel mode
              else usage fuel mode [c] (some d)
        else if isSpecial c then usage fuel mode [c] (← take?)
        else wrong fuel mode

/-- The rest of a parameter in braces, from the character behind its name. -/
def usage : (fuel : Nat) → Mode → (name : Raw) → Option Char → Reading Part
  | 0, _, _, _ => return .mark
  | fuel + 1, mode, name, c => do
    let quoted := mode.isQuoted
    let (orNull, c) ← if c = some ':' then do pure (true, ← take?) else pure (false, c)
    let word (usage : Usage) : Reading Part := do
      let (word, _) ← wordFrom fuel mode.inBraces [] false
      return .parameter name usage word.reverse quoted
    if c = some '\x7d' then return .parameter name .plain [] quoted
    else if c = some '-' then word (.default orNull)
    else if c = some '=' then word (.assign orNull)
    else if c = some '?' then word (.require orNull)
    else if c = some '+' then word (.replace orNull)
    else if (c = some '%' ∨ c = some '#') ∧ ¬ orNull then
      let longest ← accept (c.getD '%')
      let (word, _) ← wordFrom fuel .brace [] false
      return .parameter name (.trim (c = some '%') longest) word.reverse quoted
    else wrong fuel mode

/-- A parameter that is spelled wrongly, up to its closing brace. -/
def wrong : (fuel : Nat) → Mode → Reading Part
  | 0, _ => return .bad
  | fuel + 1, mode => do
    let _ ← wordFrom fuel mode.inBraces [] false
    return .bad

/-- The next token as it looks. -/
def plainToken : (fuel : Nat) → Reading (Token × Bool)
  | 0 => return (.eof, false)
  | fuel + 1 => do
    match (← get).returned with
    | some t =>
      modify fun s => { s with returned := none }
      return (t, false)
    | none =>
      let continues ← skipBlanks
      let is (t : Token) : Reading (Token × Bool) := return (t, continues)
      match ← peek? with
      | none => is .eof
      | some c =>
        if c = '\n' then
          let _ ← next?
          is .newline
        else if c = '&' then
          let _ ← next?
          if ← accept '&' then is .andIf else is .ampersand
        else if c = '|' then
          let _ ← next?
          if ← accept '|' then is .orIf else is .pipe
        else if c = ';' then
          let _ ← next?
          if ← accept ';' then is .branchEnd else is .semicolon
        else if c = '(' then
          let _ ← next?
          is .opening
        else if c = ')' then
          let _ ← next?
          is .closing
        else
          let (read, quoted) ← wordFrom fuel .bare [] false
          let sign := (← peek?).any fun c => c == '<' || c == '>'
          match read with
          | [] => if sign then is (← redirection none) else is (.word [] quoted)
          | [.char d false] =>
            if sign ∧ d.isDigit ∧ ¬ quoted then is (← redirection (some (d.toNat - '0'.toNat)))
            else is (.word read quoted)
          | _ => is (.word read.reverse quoted)

/-- The next token. -/
def token : (fuel : Nat) → Expect → Reading Token
  | 0, _ => return .eof
  | fuel + 1, e => do
    let (t, continues) ← plainToken fuel
    let e := { e with aliases := e.aliases || continues }
    match t with
    | .newline =>
      if e.newlines then
        documents fuel
        token fuel e
      else
        modify fun s => { s with last := t }
        return t
    | .word w false =>
      let s ← get
      let plain := (plainWord? w).getD []
      match if e.keywords then keyword? plain else none with
      | some name =>
        set { s with last := .keyword name }
        return .keyword name
      | none =>
        let known := if e.aliases && !s.opened.any (·.name == plain) then s.aliases.lookup plain else none
        match known with
        | some text =>
          let behind := s.rest.length
          let continues := text.getLast?.any fun c => c == ' ' || c == '\t'
          set { s with rest := text ++ s.rest, opened := ⟨plain, behind, continues⟩ :: s.opened }
          token fuel e
        | none =>
          set { s with last := t }
          return t
    | _ =>
      modify fun s => { s with last := t }
      return t

/-- Reads the texts that lines have named. -/
def documents : (fuel : Nat) → Reading Unit
  | 0 => return ()
  | fuel + 1 => do
    let s ← get
    match s.awaited with
    | [] => return ()
    | a :: awaited =>
      let (text, rest) := documentText a (s.rest.length + 1) s.rest
      let newlines (r : Raw) : Nat := r.count '\n'
      let line := s.line + (newlines s.rest - newlines rest)
      let word ← if a.literal then pure (text.map fun c => Part.char c true) else do
        set { s with rest := text, returned := none, awaited := [] }
        let (read, _) ← wordFrom fuel .document [] false
        pure read.reverse
      modify fun after =>
        { after with
          rest := rest, line := line, returned := s.returned, last := s.last, awaited := awaited,
          documents := (a.number, word) :: after.documents }
      documents fuel

/-- The redirection that a token opens; its target is the next word. -/
def target : (fuel : Nat) → Token → Reading Redirection
  | 0, _ => unexpected
  | fuel + 1, .redirect stream opening => do
    match ← token fuel {} with
    | .word w _ =>
      if (opening = .sameInput ∨ opening = .sameOutput) ∧ w matches [] then fail "Bad fd number"
      else return .target stream opening w
    | _ => unexpected
  | fuel + 1, .document stream dropTabs => do
    modify fun s => { s with plainDollar := true }
    match ← token fuel {} with
    | .word w quoted =>
      modify fun s =>
        { s with
          plainDollar := false, count := s.count + 1,
          awaited := s.awaited ++ [⟨s.count, spelled w, quoted, dropTabs⟩] }
      return .document stream ((← get).count - 1)
    | _ => unexpected
  | _ + 1, _ => unexpected

/-- Redirections as long as there are any. -/
def redirections : (fuel : Nat) → Expect → Reading (List Redirection)
  | 0, _ => return []
  | fuel + 1, e => do
    let t ← token fuel e
    match t with
    | .redirect .. | .document .. =>
      let r ← target fuel t
      return r :: (← redirections fuel {})
    | _ =>
      giveBack t
      return []

/-- A list of commands behind those read so far; the first one is still due. -/
def list : (fuel : Nat) → ListKind → (first : Bool) → Option Command → Reading (Option Command)
  | 0, _, _, read => return read
  | fuel + 1, kind, first, read => do
    let inside := kind ≠ .line
    let t ← token fuel ⟨inside, true, true⟩
    match t with
    | .newline =>
      documents fuel
      return read
    | .eof =>
      documents fuel
      giveBack t
      return read
    | t =>
      giveBack t
      if inside ∧ (kind = .optional ∨ ¬ first) ∧ t.endsList then return read
      let line := (← get).line
      let c ← andOr fuel
      let t ← token fuel {}
      let read := inSequence read (if t matches .ampersand then inBackground line c else c)
      match t with
      | .eof =>
        documents fuel
        giveBack t
        return read
      | .newline =>
        giveBack t
        list fuel kind false read
      | .ampersand | .semicolon => list fuel kind false read
      | _ =>
        if inside then
          giveBack t
          return read
        else unexpected

/-- Commands of which each runs by the success of those before it. -/
def andOr : (fuel : Nat) → Reading Command
  | 0 => unexpected
  | fuel + 1 => do
    let first ← pipeline fuel {}
    andOrFrom fuel first

/-- Commands joined to one that is read already. -/
def andOrFrom : (fuel : Nat) → Command → Reading Command
  | 0, c => return c
  | fuel + 1, c => do
    let t ← token fuel {}
    match t with
    | .andIf => andOrFrom fuel (.both c (← pipeline fuel .command))
    | .orIf => andOrFrom fuel (.either c (← pipeline fuel .command))
    | _ =>
      giveBack t
      return c

/-- Commands joined by bars, perhaps negated. -/
def pipeline : (fuel : Nat) → Expect → Reading Command
  | 0, _ => unexpected
  | fuel + 1, e => do
    let t ← token fuel e
    let negated := t matches .keyword "!"
    if ¬ negated then giveBack t
    let first ← command fuel (if negated then ⟨false, true, true⟩ else {})
    let rest ← piped fuel
    let c := if rest.isEmpty then first else .pipeline (first :: rest) false
    return if negated then .negated c else c

/-- The commands behind bars. -/
def piped : (fuel : Nat) → Reading (List Command)
  | 0 => return []
  | fuel + 1 => do
    let t ← token fuel {}
    match t with
    | .pipe =>
      let c ← command fuel .command
      return c :: (← piped fuel)
    | _ =>
      giveBack t
      return []

/-- A list of commands that may not be missing, unless the script ends; then the token that
is due behind it is what is missed. -/
def block : (fuel : Nat) → Reading Command
  | 0 => unexpected
  | fuel + 1 => return (← list fuel .needed true none).getD default

/-- Takes a reserved word that is due. -/
def word : (fuel : Nat) → Expect → String → Reading Unit
  | 0, _, name => expecting (.keyword name)
  | fuel + 1, e, name => do
    match ← token fuel e with
    | .keyword found => if found = name then return () else expecting (.keyword name)
    | _ => expecting (.keyword name)

/-- A compound command with its redirections. -/
def compound : (fuel : Nat) → (line : Nat) → Command → Reading Command
  | 0, _, c => return c
  | fuel + 1, line, c => do
    let rs ← redirections fuel ⟨false, true, true⟩
    if rs.isEmpty then return c
    else match c with
      | .subshell line body _ => return .subshell line body rs
      | c => return .redirected line c rs

/-- A command. -/
def command : (fuel : Nat) → Expect → Reading Command
  | 0, _ => unexpected
  | fuel + 1, e => do
    let line := (← get).line
    let t ← token fuel e
    match t with
    | .keyword "if" =>
      let c ← branches fuel
      word fuel {} "fi"
      compound fuel line c
    | .keyword "while" =>
      let test ← block fuel
      word fuel {} "do"
      let body ← block fuel
      word fuel {} "done"
      compound fuel line (.loop false test body)
    | .keyword "until" =>
      let test ← block fuel
      word fuel {} "do"
      let body ← block fuel
      word fuel {} "done"
      compound fuel line (.loop true test body)
    | .keyword "for" =>
      let c ← loopOver fuel line
      compound fuel line c
    | .keyword "case" =>
      match ← token fuel {} with
      | .word w _ =>
        word fuel .command "in"
        let bs ← caseBranches fuel
        compound fuel line (.choose line w bs)
      | _ => expecting (.word [] false)
    | .opening =>
      let body ← block fuel
      match ← token fuel {} with
      | .closing => compound fuel line (.subshell line body [])
      | _ => expecting .closing
    | .keyword "\x7b" =>
      let body ← block fuel
      word fuel {} "\x7d"
      compound fuel line body
    | .word .. | .redirect .. | .document .. =>
      giveBack t
      simple fuel (← get).line [] [] [] true
    | _ => unexpected

/-- The test of a choice and what follows it, up to the word that ends it. -/
def branches : (fuel : Nat) → Reading Command
  | 0 => unexpected
  | fuel + 1 => do
    let test ← block fuel
    word fuel {} "then"
    let body ← block fuel
    let t ← token fuel {}
    match t with
    | .keyword "elif" => return .branch test body (some (← branches fuel))
    | .keyword "else" => return .branch test body (some (← block fuel))
    | _ =>
      giveBack t
      return .branch test body none

/-- The rest of a loop over words. -/
def loopOver : (fuel : Nat) → (line : Nat) → Reading Command
  | 0, _ => unexpected
  | fuel + 1, line => do
    match ← token fuel {} with
    | .word w false =>
      let name := (plainWord? w).getD []
      if ¬ isName name then fail "Bad for loop variable"
      let t ← token fuel .command
      let words ← match t with
        | .keyword "in" => loopWords fuel
        | .semicolon => pure [[.parameter ['@'] .plain [] true]]
        | _ => do
          giveBack t
          pure [[.parameter ['@'] .plain [] true]]
      word fuel .command "do"
      let body ← block fuel
      word fuel {} "done"
      return .each line name words body
    | _ => fail "Bad for loop variable"

/-- The words of a loop up to the end of their line. -/
def loopWords : (fuel : Nat) → Reading (List Word)
  | 0 => return []
  | fuel + 1 => do
    match ← token fuel {} with
    | .word w _ => return w :: (← loopWords fuel)
    | .newline | .semicolon => return []
    | _ => unexpected

/-- The branches of a choice by patterns up to the word that ends it. -/
def caseBranches : (fuel : Nat) → Reading (List Branch)
  | 0 => return []
  | fuel + 1 => do
    match ← token fuel ⟨true, true, false⟩ with
    | .keyword "esac" => return []
    | t =>
      let t ← if t matches .opening then token fuel {} else pure t
      let patterns ← casePatterns fuel t
      let body ← list fuel .optional true none
      let t ← token fuel ⟨true, true, false⟩
      match t with
      | .keyword "esac" => return [.mk patterns body]
      | .branchEnd => return .mk patterns body :: (← caseBranches fuel)
      | _ => expecting .branchEnd

/-- The patterns of a branch from the one that a token holds, up to the parenthesis. -/
def casePatterns : (fuel : Nat) → Token → Reading (List Word)
  | 0, _ => return []
  | fuel + 1, t => do
    let pattern : Word := match t with
      | .word w _ => w
      | .keyword name => name.toList.map fun c => .char c false
      | _ => []
    match ← token fuel {} with
    | .pipe =>
      let t ← token fuel {}
      return pattern :: (← casePatterns fuel t)
    | .closing => return [pattern]
    | _ => expecting .closing

/-- A simple command or the definition of a function, behind what is read of it, the latest
first; `front` tells whether no word but assignments has been read. -/
def simple : (fuel : Nat) → (line : Nat) → (assignments words : List Word) →
    List Redirection → (front : Bool) → Reading Command
  | 0, line, assignments, words, rs, _ =>
    return .simple line assignments.reverse words.reverse rs.reverse
  | fuel + 1, line, assignments, words, rs, front => do
    let t ← token fuel ⟨false, false, front⟩
    match t with
    | .word w _ =>
      if front ∧ (assignment? w).isSome then simple fuel line (w :: assignments) words rs true
      else simple fuel line assignments (w :: words) rs false
    | .redirect .. | .document .. =>
      let r ← target fuel t
      simple fuel line assignments words (r :: rs) front
    | .opening =>
      match words with
      | [w] =>
        if assignments.isEmpty ∧ rs.isEmpty then
          match ← token fuel {} with
          | .closing =>
            let name := (plainWord? w).getD []
            if ¬ isName name ∨ specialNames.any (·.toList == name) then fail "Bad function name"
            let line := (← get).line
            return .define line name (← command fuel .command)
          | _ => expecting .closing
        else
          giveBack t
          return .simple line assignments.reverse words.reverse rs.reverse
      | _ =>
        giveBack t
        return .simple line assignments.reverse words.reverse rs.reverse
    | _ =>
      giveBack t
      return .simple line assignments.reverse words.reverse rs.reverse

end

/-- More steps than reading some input takes. -/
def enough (input : Raw) : Nat := 64 * input.length + 65536

/-- What a reading step gives. -/
inductive Read where
  /-- The script has ended. -/
  | ended
  /-- The commands of a line; a line may have none. -/
  | line (c : Option Command)

/-- Reads the commands of the next line. -/
def readLine : Reading Read := do
  modify fun s => { s with returned := none, awaited := [] }
  let c ← list (enough (← get).rest) .line true none
  match c, (← get).last with
  | none, .eof => return .ended
  | c, _ => return .line c

end Reading

end NetTrial.Host
