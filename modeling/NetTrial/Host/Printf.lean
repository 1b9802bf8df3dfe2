import NetTrial.Host.Escape
import NetTrial.Host.Floating
/-!
# Printing by a format

A format is text with escapes and conversions. Each conversion takes the next argument; the
format is used again as long as arguments are left, and an argument that is missing counts
as empty or zero. The program of the host and the one built into the shell differ in their
escapes, in the conversions that they know, in the precision of their numbers and in the
words of their complaints.
-/

namespace NetTrial.Host

open Text Number

/-- What a program has printed, and whether it has to complain. -/
structure Printed where
  /-- The output. -/
  stdout : Bytes := []
  /-- The complaints. -/
  stderr : String := ""
  /-- The exit code. -/
  code : Nat := 0
  deriving DecidableEq, Repr

namespace Printf

/-- The two programs. -/
inductive Variant where
  /-- The program of the host. -/
  | program
  /-- The program built into the shell. -/
  | builtIn
  deriving DecidableEq, Repr

namespace Variant

/-- The escapes of a format. -/
def format : Variant → Escapes
  | .program => ⟨true, true, true, true, false⟩
  | .builtIn => ⟨false, false, false, false, false⟩

/-- The escapes of an argument that is printed with escapes. -/
def argument : Variant → Escapes
  | .program => ⟨true, true, true, true, true⟩
  | .builtIn => ⟨false, false, false, true, true⟩

/-- The format of floating-point numbers. -/
def floating : Variant → Format
  | .program => Floating.extended
  | .builtIn => .double

end Variant

/-- A text as a complaint of the host's programs shows it: in quotes, with escapes for what is
not printed. -/
def quote (r : Raw) : String := shown ('\x27' :: (r.flatMap escaped ++ ['\x27']))
where
  /-- A character between quotes. -/
  escaped (c : Char) : Raw :=
    let letters : List (Char × Char) :=
      [ ('\x27', '\x27'), ('\\', '\\'), ('\x07', 'a'), ('\x08', 'b'), ('\x0c', 'f'), ('\n', 'n'),
        ('\r', 'r'), ('\t', 't'), ('\x0b', 'v') ]
    match letters.lookup c with
    | some letter => ['\\', letter]
    | none =>
      if 32 ≤ c.toNat ∧ c.toNat ≤ 126 then [c]
      else
        let ds := Nat.toDigits 8 c.toNat
        '\\' :: (List.replicate (3 - ds.length) '0' ++ ds)

/-- A width or a precision. -/
inductive Field where
  /-- A number. -/
  | count (n : Nat)
  /-- The value of the next argument. -/
  | next
  deriving DecidableEq, Repr

/-- A conversion. -/
structure Conversion where
  /-- The flags. -/
  flags : Raw
  /-- The least width. -/
  width : Option Field
  /-- The precision. -/
  precision : Option Field
  /-- The letter. -/
  kind : Char
  deriving DecidableEq, Repr

/-- A piece of a format. -/
inductive Piece where
  /-- Text. -/
  | text (r : Raw)
  /-- A conversion of an argument. -/
  | convert (c : Conversion)
  /-- The end of all output. -/
  | stop
  /-- A fault that ends the program, behind the arguments that its fields take. -/
  | fault (fields : List (Option Field)) (message : String)
  deriving DecidableEq, Repr

/-- The letters of conversions to a floating-point number. -/
def isFloatingKind (c : Char) : Bool := "aAeEfFgG".toList.contains c

/-- Whether the host's program knows a letter behind some flags. -/
def allows (flags : Raw) (precise : Bool) (kind : Char) : Bool :=
  let known := "aAcdeEfFgGiosuxX".toList.contains kind
  let grouped := flags.contains '\x27' || flags.contains 'I'
  let refused :=
    (grouped && "aAceEosxX".toList.contains kind) ||
      (flags.contains '#' && "cdisu".toList.contains kind) ||
      (flags.contains '0' && "cs".toList.contains kind) ||
      (precise && kind == 'c')
  known && !refused

/-- A width or a precision at the front of a text, and what follows it. -/
def field (r : Raw) : Option Field × Raw :=
  match r with
  | '*' :: rest => (some .next, rest)
  | _ =>
    let (n, rest) := takeDigits 10 0 r.length r
    (if rest.length = r.length then none else some (.count n), rest)

/-- The piece behind a percent sign and what follows it. -/
def readConversion (v : Variant) (cs : Raw) : Piece × Raw :=
  let signs := if v = .program then "'I-+ #0".toList else "#-+ 0".toList
  let flags := cs.takeWhile signs.contains
  let (width, rest) := field (cs.drop flags.length)
  let (precision, rest) :=
    match rest with
    | '.' :: after =>
      let (precision, rest) := field after
      (some (precision.getD (.count 0)), rest)
    | _ => (none, rest)
  let spelled (more : Raw) : String := shown ('%' :: cs.take (cs.length - more.length))
  match v with
  | .program =>
    let rest := rest.dropWhile "lLhjtz".toList.contains
    match rest with
    | [] => (.fault [width, precision] (spelled [] ++ ": invalid conversion specification"), [])
    | kind :: after =>
      if allows flags precision.isSome kind then (.convert ⟨flags, width, precision, kind⟩, after)
      else
        (.fault [width, precision] (spelled after ++ ": invalid conversion specification"), after)
  | .builtIn =>
    match rest with
    | [] => (.fault [width, precision] "missing format character", [])
    | kind :: after =>
      if "bcsdiouxX".toList.contains kind || isFloatingKind kind then
        (.convert ⟨flags, width, precision, kind⟩, after)
      else (.fault [width, precision] (spelled after ++ ": invalid directive"), after)

/-- The pieces of a format, at most `fuel` of them. -/
def piecesFrom (v : Variant) : (fuel : Nat) → Raw → List Piece
  | 0, _ => []
  | _, [] => []
  | fuel + 1, '%' :: '%' :: cs => .text ['%'] :: piecesFrom v fuel cs
  | fuel + 1, '%' :: cs =>
    let plain := if v = .program then cs.head?.filter (["b", "q"].contains ·.toString) else none
    match plain with
    | some kind => .convert ⟨[], none, none, kind⟩ :: piecesFrom v fuel cs.tail
    | none =>
      let (piece, rest) := readConversion v cs
      piece :: piecesFrom v fuel rest
  | fuel + 1, '\\' :: cs =>
    match v.format.read cs with
    | (.stop, _) => [.stop]
    | (.fault message, _) => [.fault [] message]
    | (.text r, rest) => .text r :: piecesFrom v fuel rest
  | fuel + 1, c :: cs => .text [c] :: piecesFrom v fuel cs

/-- The pieces of a format. -/
def pieces (v : Variant) (format : Raw) : List Piece := piecesFrom v format.length format

/-! ## Converted values -/

/-- How a value is laid out. -/
structure Layout where
  /-- The flags. -/
  flags : Raw
  /-- The least width. -/
  width : Nat
  /-- The precision. -/
  precision : Option Nat
  /-- The letter. -/
  kind : Char

/-- A text filled with blanks up to the width. -/
def pad (l : Layout) (r : Raw) : Raw :=
  let fill := List.replicate (l.width - r.length) ' '
  if l.flags.contains '-' then r ++ fill else fill ++ r

/-- A sign and digits filled up to the width, with zeros between them if they are asked
for. -/
def padNumber (l : Layout) (zeros : Bool) (sign digits : Raw) : Raw :=
  let filled := zeros && l.flags.contains '0' && !l.flags.contains '-'
  let fill := if filled then List.replicate (l.width - (sign.length + digits.length)) '0' else []
  pad l (sign ++ fill ++ digits)

/-- The sign of a number. -/
def signChars (l : Layout) (negative : Bool) : Raw :=
  if negative then ['-'] else if l.flags.contains '+' then ['+']
  else if l.flags.contains ' ' then [' '] else []

/-- An integer. One that is printed without a sign is taken as a word of 64 bits. -/
def integerChars (l : Layout) (n : Int) : Raw :=
  let signed := l.kind == 'd' || l.kind == 'i'
  let magnitude := if signed || 0 ≤ n then n.natAbs else 0x10000000000000000 - n.natAbs
  let digits :=
    if l.kind = 'o' then Nat.toDigits 8 magnitude
    else if l.kind = 'x' then Nat.toDigits 16 magnitude
    else if l.kind = 'X' then (Nat.toDigits 16 magnitude).map Char.toUpper
    else digitsOf magnitude
  let digits := if l.precision = some 0 ∧ magnitude = 0 then [] else digits
  let digits := List.replicate (l.precision.getD 1 - digits.length) '0' ++ digits
  let marked := l.flags.contains '#'
  let digits := if marked ∧ l.kind = 'o' ∧ digits.head? ≠ some '0' then '0' :: digits else digits
  let sign :=
    if signed then signChars l (n < 0)
    else if marked ∧ magnitude ≠ 0 ∧ l.kind = 'x' then ['0', 'x']
    else if marked ∧ magnitude ≠ 0 ∧ l.kind = 'X' then ['0', 'X']
    else []
  padNumber l l.precision.isNone sign digits

/-- A floating-point number. -/
def floatingChars (f : Format) (l : Layout) (negative : Bool) (x : Value) : Raw :=
  let lower := l.kind.toLower
  let style : Floating.Style :=
    if lower = 'a' then .hexadecimal else if lower = 'e' then .scientific
    else if lower = 'f' then .fixed else .general
  let cased (r : Raw) : Raw := if l.kind.isUpper then r.map Char.toUpper else r
  let sign := signChars l negative
  match x with
  | .notANumber => padNumber l false sign (cased "nan".toList)
  | .infinite _ => padNumber l false sign (cased "inf".toList)
  | .finite _ m e =>
    let digits := cased (Floating.magnitudeChars f style (l.flags.contains '#') l.precision m e)
    if style = .hexadecimal then padNumber l true (sign ++ digits.take 2) (digits.drop 2)
    else padNumber l true sign digits

/-! ## Printing -/

/-- The state of printing: what is printed so far, the arguments that are left, and whether
all output has ended. -/
structure State where
  /-- The output, the latest first. -/
  output : Raw := []
  /-- The complaints. -/
  complaints : String := ""
  /-- The exit code. -/
  code : Nat := 0
  /-- The arguments that are left. -/
  left : List Raw
  /-- Whether all output has ended. -/
  stopped : Bool := false

namespace State

/-- The state after some output. -/
def put (s : State) (r : Raw) : State := { s with output := r.reverse ++ s.output }

/-- The state after a complaint. -/
def complain (s : State) (opening message : String) : State :=
  { s with complaints := s.complaints ++ opening ++ message ++ "\n", code := 1 }

/-- The state after a remark, which is no failure. -/
def remark (s : State) (opening message : String) : State :=
  { s with complaints := s.complaints ++ opening ++ message ++ "\n" }

/-- The state after the end of all output with an exit code. -/
def halt (s : State) (code : Nat) : State := { s with stopped := true, code := code }

/-- The next argument, if one is left, and the state without it. -/
def take (s : State) : Option Raw × State := (s.left.head?, { s with left := s.left.tail })

end State

/-- What is wrong with a numeral. -/
inductive NumeralFault where
  /-- It does not open with a number. -/
  | none
  /-- It goes on behind a number. -/
  | partly
  /-- It is out of range. -/
  | range
  deriving DecidableEq

/-- The complaint on a numeral. -/
def NumeralFault.message (v : Variant) (argument : Raw) (f : NumeralFault) : String :=
  match v, f with
  | .program, .none => quote argument ++ ": expected a numeric value"
  | .program, .partly => quote argument ++ ": value not completely converted"
  | .program, .range => quote argument ++ ": Numerical result out of range"
  | .builtIn, .none => shown argument ++ ": expected numeric value"
  | .builtIn, .partly => shown argument ++ ": not completely converted"
  | .builtIn, .range => shown argument ++ ": Numerical result out of range"

/-- The character behind a quote that an argument opens with, and what follows it. -/
def quotedChar? (v : Variant) : Raw → Option (Nat × Raw)
  | q :: rest =>
    if q = '\x27' ∨ q = '"' then
      match rest with
      | c :: more => some (c.toNat, more)
      | [] => if v = .builtIn then some (0, []) else none
    else none
  | [] => none

/-- Puts a complaint on a numeral into the state, unless there is none. A numeral with more
text behind it is complained about before its size is. -/
def settle (v : Variant) (opening : String) (argument rest : Raw) (found outside : Bool)
    (s : State) : State :=
  let complain (f : NumeralFault) : State := s.complain opening (f.message v argument)
  let text := !rest.isEmpty
  match v with
  | .program =>
    if outside then complain .range
    else if text then complain (if found then .partly else .none) else s
  | .builtIn =>
    if text then complain (if found then .partly else .none)
    else if outside then complain .range else s

/-- What follows a character in quotes is complained about by the program of the host. -/
def settleChar (v : Variant) (opening : String) (more : Raw) (s : State) : State :=
  if v = .program ∧ ¬ more.isEmpty then
    s.remark opening ("warning: " ++ shown more ++
      ": character(s) following character constant have been ignored")
  else s

/-- The integer that an argument spells, zero if it is missing. -/
def integer (v : Variant) (opening : String) (signed : Bool) (argument : Option Raw) (s : State) :
    Int × State :=
  match argument with
  | none => (0, s)
  | some argument =>
    match quotedChar? v argument with
    | some (n, more) => (n, settleChar v opening more s)
    | none =>
      let found := numeral? none argument
      let (n, rest) := found.getD (0, argument)
      let limit : Int := 0xFFFFFFFFFFFFFFFF
      let m := if signed then clampWord n else if limit < n ∨ n < -limit then limit else n
      (m, settle v opening argument rest found.isSome (m != n) s)

/-- The floating-point number that an argument spells, zero if it is missing. -/
def floatingNumber (v : Variant) (opening : String) (argument : Option Raw) (s : State) :
    Bool × Value × State :=
  let zero : Value := .finite false 0 0
  match argument with
  | none => (false, zero, s)
  | some argument =>
    match quotedChar? v argument with
    | some (n, more) => (false, (Floating.nearest v.floating false n 2 0).1, settleChar v opening more s)
    | none =>
      match Floating.read? v.floating argument with
      | some found =>
        (found.negative, found.value,
          settle v opening argument found.rest true found.outside s)
      | none => (false, zero, settle v opening argument argument false false s)

/-- The largest width or precision. -/
def largestField : Int := 0x7FFFFFFF

/-- A number as the program takes it for a width or a precision: the one that is built in keeps
32 bits of it. -/
def fieldOf (v : Variant) (n : Int) : Int :=
  if v = .program then n else (n + 0x80000000) % 0x100000000 - 0x80000000

/-- How far a width or a precision is filled; larger ones are not filled at all. -/
def filled (n : Nat) : Nat := if 0x1000000 < n then 0 else n

/-- A width or precision, which may be the next argument. -/
def fieldValue (v : Variant) (opening what : String) (f : Option Field) (s : State) :
    Option Int × State :=
  match f with
  | none => (none, s)
  | some (.count n) => (some (fieldOf v n), s)
  | some .next =>
    let (argument, s) := s.take
    let (n, s) := integer v opening true argument s
    if v = .program ∧ (largestField < n ∨ (n < -largestField - 1 ∧ what = "field width")) then
      (none, (s.complain opening ("invalid " ++ what ++ ": " ++ quote (argument.getD []))).halt 1)
    else (some (fieldOf v n), s)

/-- A text in the way a shell reads it back. -/
def shellQuoted (r : Raw) : Raw :=
  let plain (c : Char) : Bool := c.isAlphanum || "%+,-./:=@_^]\x7b\x7d".toList.contains c
  let isPrinted (c : Char) : Bool := 32 ≤ c.toNat && c.toNat ≤ 126
  if r = [] then ['\x27', '\x27']
  else if r.all plain then r
  else if r.contains '\x27' ∧ r.all (fun c => isPrinted c && !"\"$\x60\\!".toList.contains c) then
    '"' :: (r ++ ['"'])
  else
    '\x27' :: (r.flatMap (fun c => if c = '\x27' then "'\\''".toList else [c]) ++ ['\x27'])

/-- Prints the next argument by a conversion. -/
def convert (v : Variant) (opening : String) (c : Conversion) (s : State) : State :=
  let (width, s) := fieldValue v opening "field width" c.width s
  let (precision, s) := fieldValue v opening "precision" c.precision s
  if s.stopped then s
  else
    let left := width.any (· < 0)
    let layout : Layout :=
      { flags := if left then '-' :: c.flags else c.flags
        width := filled (width.getD 0).natAbs
        precision := precision.bind fun n =>
          if n < 0 then none else some (if c.kind = 's' ∨ c.kind = 'b' then n.toNat else filled n.toNat)
        kind := c.kind }
    let (argument, s) := s.take
    let text := argument.getD []
    let cut (r : Raw) : Raw := match layout.precision with
      | some n => r.take n
      | none => r
    if c.kind = 's' then s.put (pad layout (cut text))
    else if c.kind = 'q' then if argument.isNone then s else s.put (shellQuoted text)
    else if c.kind = 'b' then
      let (r, ended) := v.argument.expand text
      let s := s.put (pad layout (cut r))
      match ended with
      | none => s
      | some (.fault message) => (s.complain opening message).halt 1
      | some _ => s.halt (if v = .program then 0 else s.code)
    else if c.kind = 'c' then s.put (pad layout (text.head?.elim [Char.ofNat 0] ([·])))
    else if isFloatingKind c.kind then
      let (negative, x, s) := floatingNumber v opening argument s
      let negative := match x with
        | .finite n .. => n
        | .infinite n => n
        | .notANumber => negative
      s.put (floatingChars v.floating layout negative x)
    else
      let (n, s) := integer v opening (c.kind = 'd' || c.kind = 'i') argument s
      s.put (integerChars layout n)

/-- Prints the pieces of a format once. -/
def printOnce (v : Variant) (opening : String) : List Piece → State → State
  | [], s => s
  | piece :: rest, s =>
    if s.stopped then s
    else match piece with
      | .text r => printOnce v opening rest (s.put r)
      | .stop => s.halt 0
      | .convert c => printOnce v opening rest (convert v opening c s)
      | .fault fields message =>
        let s := (fields.zip ["field width", "precision"]).foldl (fun s (f, what) =>
          if s.stopped then s else (fieldValue v opening what f s).2) s
        if s.stopped then s else (s.complain opening message).halt (if v = .program then 1 else 2)

/-- Prints the pieces of a format as often as there are arguments for it. -/
def printAll (v : Variant) (opening : String) (ps : List Piece) : (fuel : Nat) → State → State
  | 0, s => s
  | fuel + 1, s =>
    let after := printOnce v opening ps s
    if after.stopped ∨ after.left.isEmpty then after
    else if after.left.length = s.left.length then
      if v = .program then
        after.remark opening ("warning: ignoring excess arguments, starting with " ++
          quote (after.left.headD []))
      else after
    else printAll v opening ps fuel after

/-- What is printed for a format and arguments. -/
def print (v : Variant) (opening : String) (format : Raw) (args : List Raw) : Printed :=
  let s := printAll v opening (pieces v format) (args.length + 1) { left := args }
  { stdout := bytesOfRaw s.output.reverse, stderr := s.complaints, code := s.code }

/-- The program of the host. -/
def program (args : List Raw) : Printed :=
  let args := if args.head? = some ['-', '-'] then args.tail else args
  match args with
  | [] =>
    { stderr := "printf: missing operand\nTry 'printf --help' for more information.\n", code := 1 }
  | format :: rest => print .program "printf: " format rest

/-- The program built into the shell, with what it says before a complaint. -/
def builtIn (opening : String) (args : List Raw) : Printed :=
  match args with
  | [] => { stderr := opening ++ "usage: printf format [arg ...]\n", code := 2 }
  | format :: rest => print .builtIn opening format rest

end Printf

end NetTrial.Host
