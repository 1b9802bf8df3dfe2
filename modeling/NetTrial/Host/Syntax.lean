import NetTrial.Host.Raw
/-!
# The syntax of scripts

A script is made of commands, and commands of words. A word is a list of parts: characters,
the values of parameters, the output of commands, and arithmetic. Every part knows whether it
stands in quotes, because that decides whether its result is split into fields and whether
its characters are matched literally.
-/

namespace NetTrial.Host

/-- What is made of the value of a parameter. The test of those with `orNull` counts an empty
value as none. -/
inductive Usage where
  /-- The value. -/
  | plain
  /-- The length of the value. -/
  | length
  /-- The value, or a word if there is none. -/
  | default (orNull : Bool)
  /-- The value, or a word that becomes the value if there is none. -/
  | assign (orNull : Bool)
  /-- The value, or an end of the script if there is none. -/
  | require (orNull : Bool)
  /-- A word if there is a value. -/
  | replace (orNull : Bool)
  /-- The value without the part at its start or end that a pattern matches. -/
  | trim (atEnd longest : Bool)
  deriving DecidableEq, Repr, Inhabited

/-- How a redirection opens its target. -/
inductive Opening where
  /-- For input. -/
  | input
  /-- For output, emptied; not over a file when files are protected. -/
  | output
  /-- For output, emptied in any case. -/
  | overwrite
  /-- For output at the end. -/
  | append
  /-- For input and output. -/
  | both
  /-- As another stream, written behind an input sign. -/
  | sameInput
  /-- As another stream, written behind an output sign. -/
  | sameOutput
  deriving DecidableEq, Repr, Inhabited

mutual

/-- A part of a word. -/
inductive Part where
  /-- A character. -/
  | char (c : Char) (quoted : Bool)
  /-- A place where a quotation opens or closes; what holds one is not nothing. -/
  | mark
  /-- A parameter. -/
  | parameter (name : Raw) (usage : Usage) (word : List Part) (quoted : Bool)
  /-- A parameter that is spelled wrongly. -/
  | bad
  /-- The output of a command. -/
  | output (body : Option Command) (quoted : Bool)
  /-- The value of an arithmetic expression. -/
  | arithmetic (word : List Part) (quoted : Bool)

/-- A redirection of a stream. -/
inductive Redirection where
  /-- To what a word names. -/
  | target (stream : Nat) (opening : Opening) (word : List Part)
  /-- From the text in the script that has a number. -/
  | document (stream number : Nat)

/-- A branch of a choice by patterns. -/
inductive Branch where
  /-- The patterns and what runs when one of them matches. -/
  | mk (patterns : List (List Part)) (body : Option Command)

/-- A command. -/
inductive Command where
  /-- A simple command: assignments, words and redirections. -/
  | simple (line : Nat) (assignments words : List (List Part)) (redirections : List Redirection)
  /-- Commands of which each reads what the one before it prints. -/
  | pipeline (commands : List Command) (background : Bool)
  /-- A command whose success is failure. -/
  | negated (body : Command)
  /-- The second command runs after success of the first. -/
  | both (first second : Command)
  /-- The second command runs after failure of the first. -/
  | either (first second : Command)
  /-- One command after the other. -/
  | sequence (first second : Command)
  /-- A command that is not waited for. -/
  | background (line : Nat) (body : Command) (redirections : List Redirection)
  /-- A command that changes nothing in the shell around it. -/
  | subshell (line : Nat) (body : Command) (redirections : List Redirection)
  /-- A command with redirections. -/
  | redirected (line : Nat) (body : Command) (redirections : List Redirection)
  /-- A choice by success. -/
  | branch (test body : Command) (otherwise : Option Command)
  /-- A loop that runs while its test succeeds, or until it does. -/
  | loop (untilSuccess : Bool) (test body : Command)
  /-- A loop over the fields of some words. -/
  | each (line : Nat) (name : Raw) (words : List (List Part)) (body : Command)
  /-- A choice by patterns. -/
  | choose (line : Nat) (word : List Part) (branches : List Branch)
  /-- A definition of a function. -/
  | define (line : Nat) (name : Raw) (body : Command)

end

/-- A word before its expansion. -/
abbrev Word := List Part

instance : Inhabited Part := ⟨.mark⟩

instance : Inhabited Command := ⟨.simple 0 [] [] []⟩

/-- The characters of a word that is nothing but characters outside of quotes. -/
def plainWord? : Word → Option Raw
  | [] => some []
  | .char c false :: rest => (plainWord? rest).map (c :: ·)
  | _ => none

/-- The characters that a word spells when nothing in it is expanded. -/
def spelled : Word → Raw
  | [] => []
  | .char c _ :: rest => c :: spelled rest
  | _ :: rest => spelled rest

/-- The name that a word assigns to and the word of the value, if it is an assignment. -/
def assignment? : Word → Option (Raw × Word)
  | .char c false :: rest =>
    if isNameStart c then (afterName? rest).map fun (name, value) => (c :: name, value) else none
  | _ => none
where
  /-- The rest of a name up to the equals sign and what follows that. -/
  afterName? : Word → Option (Raw × Word)
    | .char c false :: rest =>
      if c = '=' then some ([], rest)
      else if isNameChar c then (afterName? rest).map fun (name, value) => (c :: name, value)
      else none
    | _ => none

/-! ## Tokens -/

/-- A token of a script. -/
inductive Token where
  /-- The end of the script. -/
  | eof
  /-- The end of a line. -/
  | newline
  /-- A semicolon. -/
  | semicolon
  /-- An ampersand. -/
  | ampersand
  /-- Two ampersands. -/
  | andIf
  /-- Two bars. -/
  | orIf
  /-- A bar. -/
  | pipe
  /-- An opening parenthesis. -/
  | opening
  /-- A closing parenthesis. -/
  | closing
  /-- Two semicolons. -/
  | branchEnd
  /-- A redirection sign. -/
  | redirect (stream : Nat) (opening : Opening)
  /-- The sign of a text in the script; whether its tabs are dropped. -/
  | document (stream : Nat) (dropTabs : Bool)
  /-- A word; whether any of it is quoted. -/
  | word (w : Word) (quoted : Bool)
  /-- A word that the language reserves. -/
  | keyword (name : String)

/-- How complaints spell a token. -/
def Token.spelling : Token → String
  | .eof => "end of file"
  | .newline => "newline"
  | .semicolon => "\";\""
  | .ampersand => "\"&\""
  | .andIf => "\"&&\""
  | .orIf => "\"||\""
  | .pipe => "\"|\""
  | .opening => "\"(\""
  | .closing => "\")\""
  | .branchEnd => "\";;\""
  | .redirect .. => "redirection"
  | .document .. => "redirection"
  | .word .. => "word"
  | .keyword name => "\"" ++ name ++ "\""

/-- The words that the language reserves. -/
def keywords : List String :=
  [ "!", "case", "do", "done", "elif", "else", "esac", "fi", "for", "if", "in", "then", "until",
    "while", "\x7b", "\x7d" ]

/-- The reserved word that a raw text is. -/
def keyword? (r : Raw) : Option String := keywords.find? fun k => k.toList == r

/-- Whether a token ends a list of commands. -/
def Token.endsList : Token → Bool
  | .eof | .closing | .branchEnd => true
  | .keyword name => ["do", "done", "elif", "else", "esac", "fi", "then", "\x7d"].contains name
  | _ => false

/-- Why a script is refused. -/
structure SyntaxFault where
  /-- What is wrong. -/
  message : String
  /-- The line. -/
  line : Nat
  deriving Repr, Inhabited

end NetTrial.Host
