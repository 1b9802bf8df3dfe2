import NetTrial.Host.Printf
import NetTrial.Files.Tree
/-!
# Programs of the host

A program is a function of its scene: arguments, input, files and the directory that it runs
in. Its effect is what it prints, its exit code and the files afterwards. Programs share how
options are read and how causes of the operating system are named.
-/

namespace NetTrial.Host

open Text

/-! ## Scenes and effects -/

/-- What a program finds when it starts. -/
structure Scene where
  /-- The arguments. -/
  args : List Raw
  /-- The files. -/
  files : Files
  /-- The files that may be run. -/
  runnable : List Location := []
  /-- The directory that the program runs in. -/
  directory : String
  /-- The input. -/
  input : Raw := []

/-- What a program leaves behind. -/
structure Effect where
  /-- The output. -/
  stdout : Raw := []
  /-- The complaints. -/
  stderr : String := ""
  /-- The exit code. -/
  code : Nat := 0
  /-- The files. -/
  files : Files
  /-- The files that may be run. -/
  runnable : List Location := []
  /-- Whether the input was read. -/
  usedInput : Bool := false

/-- A program. -/
abbrev Program := Scene → Effect

namespace Scene

/-- No effect so far. -/
def start (s : Scene) : Effect := { files := s.files, runnable := s.runnable }

/-- The effect of printing a text. -/
def say (s : Scene) (r : Raw) : Effect := { s.start with stdout := r }

/-- The effect of a complaint and an exit code. -/
def refuse (s : Scene) (message : String) (code : Nat) : Effect :=
  { s.start with stderr := message ++ "\n", code := code }

/-- The path of a name. -/
def place (s : Scene) (name : Raw) : String :=
  if name = [] then "" else Path.join s.directory (textOfRaw name)

end Scene

/-- The effect with a complaint that fails the program. -/
def Effect.complain (e : Effect) (message : String) (code : Nat) : Effect :=
  { e with stderr := e.stderr ++ message ++ "\n", code := code }

/-- The effect with more output. -/
def Effect.print (e : Effect) (r : Raw) : Effect := { e with stdout := e.stdout ++ r }

/-! ## Causes and paths -/

/-- The text of a cause. -/
def causeText : OsError → String
  | .notFound => "No such file or directory"
  | .alreadyExists => "File exists"
  | .notDirectory => "Not a directory"
  | .isDirectory => "Is a directory"
  | .invalidArgument => "Invalid argument"
  | .busy => "Device or resource busy"
  | .notEmpty => "Directory not empty"
  | .nameTooLong => "File name too long"
  | .permission => "Permission denied"
  | .zeroCharacter => "Invalid argument"
  | .notText => "Invalid argument"

/-- Directories of the host that hold nothing of a trial. -/
def systemDirectories : List String :=
  [ "/", "/bin", "/dev", "/etc", "/home", "/lib", "/opt", "/proc", "/root", "/run", "/sbin", "/srv",
    "/sys", "/tmp", "/usr", "/usr/bin", "/usr/lib", "/usr/local", "/usr/local/bin", "/usr/sbin",
    "/usr/share", "/var", "/var/lib", "/var/tmp" ]

/-- Whether a path is that of a directory. -/
def isPlace (files : Files) (path : String) : Bool :=
  systemDirectories.contains path || files.isDirectory path

/-- The directories that hold the programs of the host. -/
def programDirectories : List String := ["/bin", "/usr/bin"]

/-- The pieces of an absolute path with idle pieces left out and steps up taken. -/
def tidied (path : String) : List String :=
  ((Path.pieces path).foldl (fun found piece =>
    if Path.isIdle piece then found else if piece = ".." then found.tail else piece :: found)
    []).reverse

/-- The device that leads nowhere. -/
def nullDevice : Raw := "/dev/null".toList

/-- What can be read at a name. -/
def Scene.read (s : Scene) (name : Raw) : Except OsError Raw :=
  if name = nullDevice then .ok []
  else if name = "/dev/stdin".toList then .ok s.input
  else if isPlace s.files (s.place name) then .error .isDirectory
  else (s.files.read (s.place name)).map rawOfBytes

/-- The files with a text written to a name. -/
def Scene.written (s : Scene) (files : Files) (name text : Raw) (atEnd : Bool) :
    Except OsError Files :=
  if name = nullDevice then .ok files
  else if atEnd then files.append (s.place name) (bytesOfRaw text)
  else files.write (s.place name) (bytesOfRaw text)

/-! ## Options -/

/-- The options and the other arguments of a program. -/
structure Options where
  /-- The letters in order, each with its argument. -/
  letters : List (Char × Raw) := []
  /-- The other arguments in order. -/
  operands : List Raw := []

namespace Options

/-- Whether a letter is among the options. -/
def has (o : Options) (letter : Char) : Bool := o.letters.any fun l => l.1 == letter

/-- The last argument of a letter. -/
def argument? (o : Options) (letter : Char) : Option Raw := o.letters.reverse.lookup letter

/-- The letters of one argument, and whether the last of them takes the argument behind it. -/
def lettersOf (plain takers : Raw) : Raw → Except String (List (Char × Raw) × Option Char)
  | [] => .ok ([], none)
  | c :: rest =>
    if takers.contains c then
      if rest = [] then .ok ([], some c) else .ok ([(c, rest)], none)
    else if plain.contains c then do
      let (more, taker) ← lettersOf plain takers rest
      return ((c, []) :: more, taker)
    else .error ("invalid option -- '" ++ shown [c] ++ "'")

/-- Reads options: some letters stand alone, others take an argument. -/
def read (plain takers : Raw) : List Raw → Except String Options
  | [] => .ok {}
  | ('-' :: c :: cs) :: rest =>
    if c = '-' ∧ cs = [] then .ok { operands := rest }
    else if c = '-' then .error ("unrecognized option '" ++ shown ('-' :: c :: cs) ++ "'")
    else do
      match ← lettersOf plain takers (c :: cs), rest with
      | (found, none), rest =>
        let o ← read plain takers rest
        return { o with letters := found ++ o.letters }
      | (found, some taker), argument :: rest =>
        let o ← read plain takers rest
        return { o with letters := found ++ (taker, argument) :: o.letters }
      | (_, some taker), [] =>
        .error ("option requires an argument -- '" ++ shown [taker] ++ "'")
  | operand :: rest => do
    let o ← read plain takers rest
    return { o with operands := operand :: o.operands }

end Options

/-- A complaint on the way in which a program is used. -/
def Scene.misuse (s : Scene) (name message : String) (code : Nat) : Effect :=
  s.refuse (name ++ ": " ++ message ++ "\nTry '" ++ name ++ " --help' for more information.") code

/-- A program that reads its options first. -/
def withOptions (name : String) (plain takers : String) (code : Nat)
    (run : Scene → Options → Effect) : Program := fun s =>
  match Options.read plain.toList takers.toList s.args with
  | .error message => s.misuse name message code
  | .ok o => run s o

/-- A name in quotes. -/
def inQuotes (r : Raw) : String := "'" ++ shown r ++ "'"

/-! ## Echo -/

/-- Texts with blanks between them. -/
def joinRaw (args : List Raw) : Raw := (args.intersperse [' ']).flatten

/-- Whether an argument is made of options of `echo`. -/
def isEchoOption : Raw → Bool
  | '-' :: c :: cs => (c :: cs).all fun o => o == 'n' || o == 'e' || o == 'E'
  | _ => false

/-- What `echo` prints: its arguments, with or without escapes and a line end. -/
def echoed (escapes : Option Escapes) (newline : Bool) (args : List Raw) : Raw :=
  let text := joinRaw args
  let ended : Raw := if newline then ['\n'] else []
  match escapes with
  | none => text ++ ended
  | some e =>
    let (text, stopped) := e.expand text
    if stopped.isSome then text else text ++ ended

/-- The program `echo`. Its options come first; the last letter on escapes counts. -/
def echo : Program := fun s =>
  let options := s.args.takeWhile isEchoOption
  let letters := options.flatMap List.tail
  let escapes := (letters.filter (· ≠ 'n')).getLast? == some 'e'
  s.say (echoed (if escapes then some Printf.Variant.program.argument else none)
    (!letters.contains 'n') (s.args.drop options.length))

/-- The `echo` that is built into the shell: it reads escapes in any case. -/
def shellEcho (args : List Raw) : Raw :=
  let quiet := args.head? == some ['-', 'n']
  echoed (some Printf.Variant.builtIn.argument) (!quiet) (if quiet then args.tail else args)

/-! ## Small programs -/

/-- The program `printf`. -/
def formatted : Program := fun s =>
  let p := Printf.program s.args
  { s.start with stdout := rawOfBytes p.stdout, stderr := p.stderr, code := p.code }

/-- Whether a text is a length of time. -/
def isInterval (r : Raw) : Bool :=
  let number := if r.getLast?.any "smhd".toList.contains then r.dropLast else r
  match Floating.read? .double number with
  | some found => found.rest.isEmpty && !found.negative
  | none => false

/-- The program `sleep`, for which no time passes. -/
def sleep : Program := withOptions "sleep" "" "" 1 fun s o =>
  match o.operands with
  | [] => s.misuse "sleep" "missing operand" 1
  | operands =>
    match operands.find? fun r => !isInterval r with
    | some r => s.misuse "sleep" ("invalid time interval " ++ inQuotes r) 1
    | none => s.start

/-- The last piece of a path without the slashes behind it. -/
def baseName (r : Raw) : Raw :=
  let front := r.reverse.dropWhile (· = '/')
  if front = [] then r.take 1 else (front.takeWhile (· ≠ '/')).reverse

/-- The program `basename`. -/
def basename : Program := withOptions "basename" "" "" 1 fun s o =>
  match o.operands with
  | [] => s.misuse "basename" "missing operand" 1
  | [r] => s.say (baseName r ++ ['\n'])
  | [r, ending] =>
    let base := baseName r
    let cut :=
      if ending.isSuffixOf base ∧ ending ≠ base then base.take (base.length - ending.length)
      else base
    s.say (cut ++ ['\n'])
  | _ :: _ :: extra :: _ => s.misuse "basename" ("extra operand " ++ inQuotes extra) 1

/-- What stands in front of the last piece of a path. -/
def directoryName (r : Raw) : Raw :=
  let front := (r.reverse.dropWhile (· = '/')).dropWhile (· ≠ '/')
  let up := front.dropWhile (· = '/')
  if up ≠ [] then up.reverse else if front ≠ [] ∨ r.head? = some '/' then ['/'] else ['.']

/-- The program `dirname`. -/
def dirname : Program := withOptions "dirname" "" "" 1 fun s o =>
  if o.operands.isEmpty then s.misuse "dirname" "missing operand" 1
  else s.say (o.operands.flatMap fun r => directoryName r ++ ['\n'])

/-- The numbers from one to another in steps, at most `fuel` of them. -/
def numbersFrom (step last : Int) : (fuel : Nat) → Int → List Int
  | 0, _ => []
  | fuel + 1, n =>
    if (0 < step ∧ last < n) ∨ (step < 0 ∧ n < last) then []
    else n :: numbersFrom step last fuel (n + step)

/-- The program `seq` for integers. -/
def seq : Program := fun s =>
  let isNegative (r : Raw) : Bool := r.head? == some '-' && (r.drop 1).all Char.isDigit
  let plain := s.args.takeWhile fun r => !isNegative r
  match Options.read "w".toList "s".toList plain with
  | .error message => s.misuse "seq" message 1
  | .ok o =>
    let operands := o.operands ++ s.args.drop plain.length
    let numbers := operands.map (wholeNumber? (some 10))
    let between := (o.argument? 's').getD ['\n']
    let print (first step last : Int) : Effect :=
      let ns := numbersFrom step last ((last - first).natAbs + 1) first
      let width := (ns.map fun n => (decimal n).length).foldl max 0
      let wide (n : Int) : Raw :=
        let digits := decimal n.natAbs
        let sign : Raw := if n < 0 then ['-'] else []
        sign ++ List.replicate (width - (sign.length + digits.length)) '0' ++ digits
      let texts := ns.map fun n => if o.has 'w' then wide n else decimal n
      s.say (if texts.isEmpty then [] else (texts.intersperse between).flatten ++ ['\n'])
    match numbers.findIdx? Option.isNone, numbers.filterMap id with
    | some i, _ =>
      s.misuse "seq" ("invalid floating point argument: " ++ inQuotes (operands.getD i [])) 1
    | none, [] => s.misuse "seq" "missing operand" 1
    | none, [last] => print 1 1 last
    | none, [first, last] => print first 1 last
    | none, [first, step, last] =>
      if step = 0 then
        s.misuse "seq" ("invalid Zero increment value: " ++ inQuotes (operands.getD 1 [])) 1
      else print first step last
    | none, _ => s.misuse "seq" ("extra operand " ++ inQuotes (operands.getD 3 [])) 1

end NetTrial.Host
