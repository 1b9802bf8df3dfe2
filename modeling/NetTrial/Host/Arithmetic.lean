import NetTrial.Host.Numeral
/-!
# Arithmetic of scripts

An expression is evaluated while it is read, from left to right, on signed words of 64 bits
that wrap. What is not needed for the result is read without being evaluated. A variable
stands for the number that its value spells, and an assignment changes it at once.
-/

namespace NetTrial.Host.Arithmetic

/-- An operator between two operands. -/
inductive Operator where
  /-- Product, quotient and remainder. -/
  | mul | div | rem
  /-- Sum and difference. -/
  | add | sub
  /-- Shifts. -/
  | left | right
  /-- Comparisons. -/
  | lt | le | gt | ge
  /-- Equality. -/
  | eq | ne
  /-- Operations on bits. -/
  | bitAnd | bitXor | bitOr
  deriving DecidableEq, Repr

/-- How weakly an operator binds. -/
def Operator.level : Operator → Nat
  | .mul | .div | .rem => 0
  | .add | .sub => 1
  | .left | .right => 2
  | .lt | .le | .gt | .ge => 3
  | .eq | .ne => 4
  | .bitAnd => 5
  | .bitXor => 6
  | .bitOr => 7

/-- More than any level. -/
def weakest : Nat := 8

/-- A token of an expression. -/
inductive Token where
  /-- The end. -/
  | stop
  /-- A character that opens no token. -/
  | bad
  /-- A numeral. -/
  | number (n : Int64)
  /-- A variable. -/
  | variable (name : Raw)
  /-- An operator. -/
  | operator (o : Operator)
  /-- An operator with an equals sign behind it, or an equals sign alone. -/
  | assign (o : Option Operator)
  /-- Parentheses. -/
  | opening | closing
  /-- The signs of a choice. -/
  | question | colon
  /-- Conjunction and disjunction. -/
  | and | or
  /-- Negation and complement. -/
  | not | complement
  deriving DecidableEq, Repr

/-- The token of a sign, with or without an equals sign behind it. -/
def assignable (o : Operator) : Raw → Token × Raw
  | '=' :: rest => (.assign (some o), rest)
  | rest => (.operator o, rest)

/-- The token at the front of a text without blanks in front, and what follows it. -/
def tokenAt : Raw → Token × Raw
  | [] => (.stop, [])
  | '=' :: '=' :: rest => (.operator .eq, rest)
  | '=' :: rest => (.assign none, rest)
  | '>' :: '=' :: rest => (.operator .ge, rest)
  | '>' :: '>' :: rest => assignable .right rest
  | '>' :: rest => (.operator .gt, rest)
  | '<' :: '=' :: rest => (.operator .le, rest)
  | '<' :: '<' :: rest => assignable .left rest
  | '<' :: rest => (.operator .lt, rest)
  | '|' :: '|' :: rest => (.or, rest)
  | '|' :: rest => assignable .bitOr rest
  | '&' :: '&' :: rest => (.and, rest)
  | '&' :: rest => assignable .bitAnd rest
  | '!' :: '=' :: rest => (.operator .ne, rest)
  | '!' :: rest => (.not, rest)
  | '(' :: rest => (.opening, rest)
  | ')' :: rest => (.closing, rest)
  | '*' :: rest => assignable .mul rest
  | '/' :: rest => assignable .div rest
  | '%' :: rest => assignable .rem rest
  | '+' :: rest => assignable .add rest
  | '-' :: rest => assignable .sub rest
  | '^' :: rest => assignable .bitXor rest
  | '~' :: rest => (.complement, rest)
  | '?' :: rest => (.question, rest)
  | ':' :: rest => (.colon, rest)
  | c :: rest =>
    if c.isDigit then
      let (n, rest) := (magnitude? none (c :: rest)).getD (0, rest)
      (.number (Int64.ofInt (clampWord n)), rest)
    else if isNameStart c then
      let name := (c :: rest).takeWhile isNameChar
      (.variable name, (c :: rest).drop name.length)
    else (.bad, c :: rest)

/-- Variables as an expression sees them. -/
structure Variables (σ : Type) where
  /-- The value of a variable. -/
  value : σ → Raw → Option Raw
  /-- Another value for a variable, or why it cannot have one. -/
  assign : σ → Raw → Raw → Except String σ

/-- The state of evaluation. -/
structure State (σ : Type) where
  /-- What is left of the expression. -/
  rest : Raw
  /-- The token behind the last operand. -/
  next : Token := .stop
  /-- The variables. -/
  bindings : σ

/-- A step of evaluation. -/
abbrev Eval (σ α : Type) := StateT (State σ) (Except String) α

section

variable {σ : Type} (v : Variables σ) (whole : Raw)

/-- Ends evaluation with a complaint about the expression. -/
def fail {α : Type} (message : String) : Eval σ α :=
  throw ("arithmetic expression: " ++ message ++ ": \"" ++ shown whole ++ "\"")

/-- Takes the next token. -/
def lex : Eval σ Token := do
  let s ← get
  let (t, rest) := tokenAt (s.rest.dropWhile fun c => c == ' ' || c == '\t' || c == '\n')
  set { s with rest := rest }
  return t

/-- The number that the value of a variable spells. -/
def variableNumber (name : Raw) : Eval σ Int64 := do
  let value := (v.value (← get).bindings name).getD []
  match wholeNumber? none value with
  | some n => return Int64.ofInt n
  | none => throw ("Illegal number: " ++ shown value)

/-- One or zero. -/
def ofBool (b : Bool) : Int64 := if b then 1 else 0

/-- The value of an operation. -/
def operate (o : Operator) (a b : Int64) : Eval σ Int64 := do
  match o with
  | .mul => return a * b
  | .div => if b = 0 then fail whole "division by zero" else return a / b
  | .rem => if b = 0 then fail whole "division by zero" else return a % b
  | .add => return a + b
  | .sub => return a - b
  | .left => return a <<< b
  | .right => return a >>> b
  | .lt => return ofBool (a < b)
  | .le => return ofBool (a ≤ b)
  | .gt => return ofBool (b < a)
  | .ge => return ofBool (b ≤ a)
  | .eq => return ofBool (a == b)
  | .ne => return ofBool (a != b)
  | .bitAnd => return a &&& b
  | .bitXor => return a ^^^ b
  | .bitOr => return a ||| b

/-- Notes the token behind an operand. -/
def setNext (t : Token) : Eval σ Unit := modify fun s => { s with next := t }

mutual

/-- An operand that opens with one token and goes on with another. What is `skipped` is read
only. -/
def primary : (fuel : Nat) → (skipped : Bool) → Token → Token → Eval σ Int64
  | 0, _, _, _ => fail whole "expecting primary"
  | fuel + 1, skipped, t, after => do
    match t with
    | .opening =>
      let n ← assignment fuel skipped after
      match (← get).next with
      | .closing =>
        setNext (← lex)
        return n
      | _ => fail whole "expecting ')'"
    | .number n =>
      setNext after
      return n
    | .variable name =>
      setNext after
      if skipped then return 0 else variableNumber v name
    | .operator .add => primary fuel skipped after (← lex)
    | .operator .sub => return -(← primary fuel skipped after (← lex))
    | .not => return ofBool ((← primary fuel skipped after (← lex)) == 0)
    | .complement => return ~~~(← primary fuel skipped after (← lex))
    | _ => fail whole "expecting primary"

/-- Operations of at most a level behind a first operand. -/
def operationFrom : (fuel : Nat) → (skipped : Bool) → Int64 → Operator → (level : Nat) → Eval σ Int64
  | 0, _, a, _, _ => return a
  | fuel + 1, skipped, a, o, level => do
    let t ← lex
    let b ← primary fuel skipped t (← lex)
    let b ← match (← get).next with
      | .operator p =>
        if p.level < o.level then operationFrom fuel skipped b p o.level else pure b
      | _ => pure b
    let a ← if skipped then pure b else operate whole o a b
    match (← get).next with
    | .operator p => if level ≤ p.level then return a else operationFrom fuel skipped a p level
    | _ => return a

/-- An operation. -/
def operation : (fuel : Nat) → (skipped : Bool) → Token → Token → Eval σ Int64
  | 0, _, _, _ => fail whole "expecting primary"
  | fuel + 1, skipped, t, after => do
    let a ← primary fuel skipped t after
    match (← get).next with
    | .operator o => operationFrom fuel skipped a o weakest
    | _ => return a

/-- A conjunction. -/
def conjunction : (fuel : Nat) → (skipped : Bool) → Token → Token → Eval σ Int64
  | 0, _, _, _ => fail whole "expecting primary"
  | fuel + 1, skipped, t, after => do
    let a ← operation fuel skipped t after
    match (← get).next with
    | .and =>
      let t ← lex
      let b ← conjunction fuel (skipped || a == 0) t (← lex)
      return ofBool (a != 0 && b != 0)
    | _ => return a

/-- A disjunction. -/
def disjunction : (fuel : Nat) → (skipped : Bool) → Token → Token → Eval σ Int64
  | 0, _, _, _ => fail whole "expecting primary"
  | fuel + 1, skipped, t, after => do
    let a ← conjunction fuel skipped t after
    match (← get).next with
    | .or =>
      let t ← lex
      let b ← disjunction fuel (skipped || a != 0) t (← lex)
      return ofBool (a != 0 || b != 0)
    | _ => return a

/-- A choice. -/
def choice : (fuel : Nat) → (skipped : Bool) → Token → Token → Eval σ Int64
  | 0, _, _, _ => fail whole "expecting primary"
  | fuel + 1, skipped, t, after => do
    let a ← disjunction fuel skipped t after
    match (← get).next with
    | .question =>
      let b ← assignment fuel (skipped || a == 0) (← lex)
      match (← get).next with
      | .colon =>
        let t ← lex
        let c ← choice fuel (skipped || a != 0) t (← lex)
        return if a != 0 then b else c
      | _ => fail whole "expecting ':'"
    | _ => return a

/-- An assignment. -/
def assignment : (fuel : Nat) → (skipped : Bool) → Token → Eval σ Int64
  | 0, _, _ => fail whole "expecting primary"
  | fuel + 1, skipped, t => do
    let after ← lex
    match t, after with
    | .variable name, .assign o =>
      let n ← assignment fuel skipped (← lex)
      if skipped then return n
      else
        let n ← match o with
          | some o => do operate whole o (← variableNumber v name) n
          | none => pure n
        let s ← get
        match v.assign s.bindings name (decimal n.toInt) with
        | .ok changed =>
          set { s with bindings := changed }
          return n
        | .error message => throw message
    | t, after => choice fuel skipped t after

end

/-- The value of an expression and the variables afterwards, or a complaint. -/
def value (bindings : σ) : Except String (Int64 × σ) := do
  let run : Eval σ Int64 := do
    let n ← assignment v whole (64 * whole.length + 64) false (← lex)
    match (← get).next with
    | .stop => return n
    | _ => fail whole "expecting EOF"
  let (n, s) ← run.run { rest := whole, bindings := bindings }
  return (n, s.bindings)

end

end NetTrial.Host.Arithmetic
