import NetTrial.Host.Condition
import NetTrial.Host.Expansion
/-!
# Built-in commands

A built-in command changes the shell itself or prints something that the shell knows. It takes
its arguments and gives a status; a fault of it is complained about under its name. Those that
run other commands are part of the interpreter.
-/

namespace NetTrial.Host

open Text Shell

/-- A built-in command. -/
abbrev Builtin := (args : List Raw) → Act Nat

namespace Builtin

/-! ## Printing and reading options -/

/-- Prints a text. A text that cannot be printed is noted. -/
def say (r : Raw) : Act Unit := do
  if ¬ (← write 1 r) then modify fun s => { s with lost := true }

/-- Prints a text on standard error as it is. -/
def warn (message : String) : Act Unit := do
  let _ ← write 2 message.toList

/-- The letters of one argument, and whether the last of them takes the argument behind it. -/
def lettersOf (plain takers : Raw) : Raw → Act (List (Char × Raw) × Option Char)
  | [] => return ([], none)
  | c :: rest =>
    if takers.contains c then
      return if rest = [] then ([], some c) else ([(c, rest)], none)
    else if plain.contains c then do
      let (more, taker) ← lettersOf plain takers rest
      return ((c, []) :: more, taker)
    else fail ("Illegal option -" ++ shown [c])

/-- Reads the options in front of the other arguments. -/
def readOptions (plain takers : Raw) : List Raw → Act (List (Char × Raw) × List Raw)
  | ('-' :: c :: cs) :: rest =>
    if c = '-' ∧ cs = [] then return ([], rest)
    else do
      match ← lettersOf plain takers (c :: cs), rest with
      | (found, none), rest =>
        let (more, args) ← readOptions plain takers rest
        return (found ++ more, args)
      | (found, some taker), argument :: rest =>
        let (more, args) ← readOptions plain takers rest
        return (found ++ (taker, argument) :: more, args)
      | (_, some taker), [] => fail ("No arg for -" ++ shown [taker] ++ " option")
  | args => return ([], args)

/-- A built-in command that reads its options first. -/
def withOptions (plain : String) (run : (letters : Raw) → (args : List Raw) → Act Nat) : Builtin :=
  fun args => do
    let (letters, args) ← readOptions plain.toList [] args
    run (letters.map Prod.fst) args

/-- The number that an argument spells; it is not negative. -/
def number (r : Raw) : Act Nat := do
  match wholeNumber? (some 10) r with
  | some n =>
    if n < 0 ∨ 0x7FFFFFFF < n then fail ("Illegal number: " ++ shown r) else return n.toNat
  | none => fail ("Illegal number: " ++ shown r)

/-- A text in quotes that the shell reads back. -/
def quoted (r : Raw) : Raw := go (r.length + 1) r
where
  /-- The rest of the text in quotes, at most `fuel` stretches of it. -/
  go : (fuel : Nat) → Raw → Raw
    | 0, _ => []
    | fuel + 1, r =>
      let plain := r.takeWhile (· ≠ '\x27')
      let rest := r.drop plain.length
      let marks := rest.takeWhile (· = '\x27')
      let front : Raw := '\x27' :: (plain ++ ['\x27'])
      if marks = [] then front
      else
        let after := rest.drop marks.length
        front ++ '"' :: (marks ++ ['"']) ++ (if after = [] then [] else go fuel after)

/-! ## Output -/

/-- The command `echo`. -/
def echo : Builtin := fun args => do
  say (shellEcho args)
  return 0

/-- The command `printf`. -/
def printf : Builtin := withOptions "" fun _ args => do
  let s ← get
  let speaker := (s.speaker.map fun r => shown r ++ ": ").getD ""
  let opening := shown s.name ++ ": " ++ toString s.line ++ ": " ++ speaker
  let p := Printf.builtIn opening args
  warn p.stderr
  say (rawOfBytes p.stdout)
  return p.code

/-- The command `test`; under its other name it asks for a closing bracket. -/
def test (bracket : Bool) : Builtin := fun args => do
  if bracket ∧ args.getLast? ≠ some [']'] then fail "missing ]"
  match Condition.value (← get) (if bracket then args.dropLast else args) with
  | .ok holds => return if holds then 0 else 1
  | .error message => fail message

/-! ## Directories -/

/-- The path of the directory of a shell as it is shown. -/
def shownDirectory (s : Shell) : Raw := rawOf ("/" ++ Path.ofPieces (tidied s.directory))

/-- The command `cd`. -/
def changeDirectory : Builtin := withOptions "LP" fun _ args => do
  let s ← get
  let back := args.head? == some ['-']
  let target := match args with
    | [] => s.value? "HOME".toList
    | name :: _ => if back then s.value? "OLDPWD".toList else some name
  let name := target.getD []
  let path := if name = [] then s.directory else s.pathOf name
  if ¬ isPlace s.files path then fail ("can't cd to " ++ shown name)
  let old := shownDirectory s
  let path := if startsWith "/" path then "/" ++ Path.ofPieces (tidied path) else path
  modify fun s => { s with directory := path }
  assign "OLDPWD".toList (some old) true
  assign "PWD".toList (some (shownDirectory (← get))) true
  if back then say (shownDirectory (← get) ++ ['\n'])
  return 0

/-- The command `pwd`. -/
def printDirectory : Builtin := withOptions "LP" fun _ _ => do
  say (shownDirectory (← get) ++ ['\n'])
  return 0

/-! ## Variables -/

/-- Prints variables in order, each as a command that sets it. -/
def sayVariables (command : Raw) (test : Variable → Bool) : Act Unit := do
  let found := ((← get).bindings.filter fun v => test v.2).mergeSort fun a b =>
    Pattern.rawLe a.1 b.1
  for (name, v) in found do
    let value := (v.value.map fun r => '=' :: quoted r).getD []
    say ((if command = [] then [] else command ++ [' ']) ++ name ++ value ++ ['\n'])

/-- A name and the value behind its equals sign. -/
def splitDeclaration (r : Raw) : Raw × Option Raw :=
  let name := r.takeWhile (· ≠ '=')
  (name, if name.length < r.length then some (r.drop (name.length + 1)) else none)

/-- The commands `export` and `readonly`. -/
def declare (fixed : Bool) : Builtin := withOptions "p" fun letters args => do
  if letters.contains 'p' ∨ args.isEmpty then
    if fixed then sayVariables "readonly".toList (·.fixed)
    else sayVariables "export".toList (·.exported)
    return 0
  for arg in args do
    let (name, value) := splitDeclaration arg
    match value, (← get).binding? name with
    | none, some old =>
      setVariable name { old with exported := old.exported || !fixed, fixed := old.fixed || fixed }
    | value, _ =>
      assign name value (!fixed)
      if fixed then
        let old := ((← get).binding? name).getD {}
        setVariable name { old with fixed := true }
  return 0

/-- The command `unset`. -/
def unsetNames : Builtin := withOptions "vf" fun letters args => do
  for name in args do
    if letters.getLast? = some 'f' then
      modify fun s => { s with functions := s.functions.filter fun f => f.1 != name }
    else unset name
  return 0

/-- The command `local`. -/
def hideNames : Builtin := withOptions "" fun _ args => do
  if (← get).hidden.isEmpty then fail "not in a function"
  for arg in args do
    if arg = ['-'] then hideOptions
    else
      let (name, value) := splitDeclaration arg
      if ¬ isName name then fail (badName name)
      hide name
      match value with
      | some value => setValue name value
      | none => if ((← get).binding? name).isNone then setVariable name {}
  return 0

/-- The command `shift`. -/
def shift : Builtin := fun args => do
  let count ← match args with
    | [] => pure 1
    | r :: _ => number r
  if (← get).args.length < count then fail "can't shift that many"
  modify fun s => { s with args := s.args.drop count, optionIndex := 1, optionOffset := none }
  return 0

/-! ## Options of the shell -/

/-- The names and letters of the options. -/
def optionNames : List (String × Option Char) :=
  [ ("errexit", some 'e'), ("noglob", some 'f'), ("ignoreeof", some 'I'), ("interactive", some 'i'),
    ("monitor", some 'm'), ("noexec", some 'n'), ("stdin", some 's'), ("xtrace", some 'x'),
    ("verbose", some 'v'), ("vi", some 'V'), ("emacs", some 'E'), ("noclobber", some 'C'),
    ("allexport", some 'a'), ("notify", some 'b'), ("nounset", some 'u'), ("privileged", none),
    ("nolog", none), ("debug", none) ]

/-- Switches an option. -/
def switch (on : Bool) (letter : Char) : Act Unit := modify fun s =>
  let others := s.options.filter (· ≠ letter)
  { s with options := if on then letter :: others else others }

/-- Switches an option by its letter. -/
def switchLetter (on : Bool) (letter : Char) : Act Unit := do
  if optionLetters.contains letter then switch on letter
  else fail ("Illegal option -" ++ shown [letter])

/-- Switches an option by its name. -/
def switchName (on : Bool) (name : Raw) : Act Unit := do
  match optionNames.find? fun o => o.1.toList == name with
  | some (_, some letter) => switch on letter
  | some (_, none) => return ()
  | none => fail ("Illegal option -o " ++ shown name)

/-- Prints all options. -/
def sayOptions (on : Bool) : Act Unit := do
  let s ← get
  let isOn (o : String × Option Char) : Bool := o.2.any s.isOn
  let pad (name : String) : Raw := name.toList ++ List.replicate (16 - name.length) ' '
  if on then
    say "Current option settings\n".toList
    for o in optionNames do
      say (pad o.1 ++ (if isOn o then "on\n" else "off\n").toList)
  else
    for o in optionNames do
      say ((if isOn o then "set -o " else "set +o ") ++ o.1 ++ "\n").toList

/-- Reads the letters of one argument of `set` and gives the arguments that are left. A letter
`o` takes the next argument as a name; the `other` letters are noted. -/
def switchLetters (on : Bool) (other : Raw) : Raw → List Raw → Act (List Raw)
  | [], rest => return rest
  | c :: cs, rest => do
    if other.contains c then
      switch true c
      switchLetters on other cs rest
    else if c = 'o' then
      match rest with
      | [] =>
        sayOptions on
        switchLetters on other cs []
      | name :: rest =>
        switchName on name
        switchLetters on other cs rest
    else
      switchLetter on c
      switchLetters on other cs rest

/-- Reads options of the shell, at most `fuel` arguments of them. Gives the arguments that
are left, and whether a sign has ended the options. -/
def readSwitches (other : Raw) : (fuel : Nat) → List Raw → Act (List Raw × Option Raw)
  | 0, args => return (args, none)
  | fuel + 1, args => do
    match args with
    | ('-' :: cs) :: rest =>
      if cs = [] ∨ cs = ['-'] then return (rest, some ('-' :: cs))
      readSwitches other fuel (← switchLetters true other cs rest)
    | ('+' :: cs) :: rest => readSwitches other fuel (← switchLetters false other cs rest)
    | args => return (args, none)

/-- Sets the positional parameters. -/
def setArgs (args : List Raw) : Act Unit := modify fun s =>
  { s with args := args, optionIndex := 1, optionOffset := none }

/-- The command `set`. -/
def set : Builtin := fun args => do
  if args.isEmpty then
    sayVariables [] (·.value.isSome)
    return 0
  let (rest, sign) ← readSwitches [] (args.length + 1) args
  if sign = some ['-'] then
    switch false 'x'
    switch false 'v'
  if ¬ rest.isEmpty ∨ sign = some ['-', '-'] then setArgs rest
  return 0

/-- The command `getopts`. -/
def nextOption : Builtin := fun args => do
  match args with
  | known :: name :: rest =>
    let s ← get
    let args := if rest.isEmpty then s.args else rest
    let isPast : Bool := decide (args.length + 1 < s.optionIndex)
    let index := if isPast then 1 else s.optionIndex
    let offset := if isPast then none else s.optionOffset
    let silent := known.head? == some ':'
    let current := match offset, index with
      | some offset, index + 2 => ((args[index]?).getD []).drop offset
      | _, _ => []
    -- The letters that are left, and the place behind the argument that holds them.
    let (letters, index) := match current, args[index - 1]? with
      | c :: cs, _ => (some (c :: cs), index)
      | [], some ('-' :: c :: cs) =>
        if c = '-' ∧ cs = [] then (none, index + 1) else (some (c :: cs), index + 1)
      | [], _ => (none, index)
    let finish (letter : Char) (index : Nat) (left : Option Nat) : Act Unit := do
      setValue "OPTIND".toList (decimal index)
      setValue name [letter]
      modify fun s =>
        { s with
          optionIndex := index
          optionOffset := left.map fun n => ((args[index - 2]?).getD []).length - n }
    match letters with
    | some (c :: left) =>
      match takes? known c with
      | none =>
        if silent then setValue "OPTARG".toList [c]
        else
          warn ("Illegal option -" ++ shown [c] ++ "\n")
          unset "OPTARG".toList
        finish '?' index (some left.length)
      | some false =>
        setValue "OPTARG".toList []
        finish c index (some left.length)
      | some true =>
        match left, args[index - 1]? with
        | _ :: _, _ =>
          setValue "OPTARG".toList left
          finish c index none
        | [], some argument =>
          setValue "OPTARG".toList argument
          finish c (index + 1) none
        | [], none =>
          if silent then
            setValue "OPTARG".toList [c]
            finish ':' index (some 0)
          else
            warn ("No arg for -" ++ shown [c] ++ " option\n")
            unset "OPTARG".toList
            finish '?' index (some 0)
      return 0
    | _ =>
      finish '?' index none
      return 1
  | _ => fail "Usage: getopts optstring var [arg...]"
where
  /-- Whether a letter takes an argument; none if it is not known. -/
  takes? : Raw → Char → Option Bool
    | [], _ => none
    | a :: ':' :: rest, c => if a = c then some true else takes? rest c
    | a :: rest, c => if a = c then some false else takes? rest c

/-! ## Reading -/

/-- The characters of a line up to its end, with a sign for each one behind a backslash, and
how many bytes were taken; whether the line has an end. Without `raw` a backslash takes the
character behind it, and a line end behind it is left out. -/
def takeLine (raw : Bool) : Raw → List (Char × Bool) × Nat × Bool
  | [] => ([], 0, false)
  | '\n' :: _ => ([], 1, true)
  | '\\' :: c :: rest =>
    if raw then
      let (line, count, found) := takeLine raw (c :: rest)
      (('\\', false) :: line, count + 1, found)
    else
      let (line, count, found) := takeLine raw rest
      (if c = '\n' then (c, true) :: line else (c, true) :: line, count + 2, found)
  | c :: rest =>
    let (line, count, found) := takeLine raw rest
    ((c, false) :: line, count + 1, found)

/-- The regions of a line: what stands behind a backslash is not split. -/
def regionsOf : List (Char × Bool) → Expanded
  | [] => [(.split, [])]
  | (c, true) :: rest =>
    let kept : List Atom := if c = '\n' then [] else [.char c true]
    (.split, []) :: (.whole, kept) :: regionsOf rest
  | (c, false) :: rest =>
    match regionsOf rest with
    | (.split, atoms) :: more => (.split, .char c false :: atoms) :: more
    | more => (.split, [.char c false]) :: more

/-- The command `read`. -/
def read : Builtin := fun args => do
  let (letters, names) ← readOptions ['r'] ['p'] args
  if names.isEmpty then fail "arg count"
  let s ← get
  let (line, count, found) := takeLine (letters.any (·.1 == 'r')) (s.readable 0)
  advance 0 count
  let line := line.filter fun c => c.1 ≠ Char.ofNat 0
  let fields := (Expanded.fields s.separators (some names.length) (regionsOf line)).map charsOf
  for (name, i) in names.zipIdx do
    setValue name ((fields[i]?).getD [])
  return if found then 0 else 1

/-! ## Abbreviations and hidden paths -/

/-- The command `alias`. -/
def abbreviate : Builtin := fun args => do
  let tell (a : Raw × Raw) : Act Unit := say (a.1 ++ '=' :: (quoted a.2 ++ ['\n']))
  if args.isEmpty then
    for a in inSlots 39 (← get).aliases do tell a
    return 0
  let mut status := 0
  for arg in args do
    let (tail, value) := splitDeclaration arg.tail
    match value with
    | some value =>
      modify fun s => { s with aliases := put s.aliases (arg.take 1 ++ tail) value }
    | none =>
      match (← get).aliases.find? fun a => a.1 == arg with
      | some a => tell a
      | none =>
        warn ("alias: " ++ shown arg ++ " not found\n")
        status := 1
  return status

/-- The command `unalias`. -/
def unalias : Builtin := withOptions "a" fun letters args => do
  if letters.contains 'a' then
    modify fun s => { s with aliases := [] }
    return 0
  let mut status := 0
  for name in args do
    if ((← get).aliases.lookup name).isNone then
      warn ("unalias: " ++ shown name ++ " not found\n")
      status := 1
    modify fun s => { s with aliases := s.aliases.filter fun a => a.1 != name }
  return status

/-! ## Signals -/

/-- The names of the signals by number; the first one is the end of the shell. -/
def signalNames : List String :=
  [ "EXIT", "HUP", "INT", "QUIT", "ILL", "TRAP", "ABRT", "BUS", "FPE", "KILL", "USR1", "SEGV",
    "USR2", "PIPE", "ALRM", "TERM", "16", "CHLD", "CONT", "STOP", "TSTP", "TTIN", "TTOU", "URG",
    "XCPU", "XFSZ", "VTALRM", "PROF", "WINCH", "IO", "PWR", "SYS", "32", "33", "RTMIN" ] ++
    ((List.range 15).map fun i => "RTMIN+" ++ toString (i + 1)) ++
    ((List.range 14).map fun i => "RTMAX-" ++ toString (14 - i)) ++ ["RTMAX"]

/-- What is said about a process that a signal has ended. -/
def signalText (number : Nat) : String :=
  let texts : List (Nat × String) :=
    [ (1, "Hangup"), (2, "Interrupt"), (3, "Quit"), (4, "Illegal instruction"),
      (5, "Trace/breakpoint trap"), (6, "Aborted"), (7, "Bus error"), (8, "Floating point exception"),
      (9, "Killed"), (10, "User defined signal 1"), (11, "Segmentation fault"),
      (12, "User defined signal 2"), (13, "Broken pipe"), (14, "Alarm clock"), (15, "Terminated"),
      (16, "Stack fault"), (24, "CPU time limit exceeded"), (25, "File size limit exceeded"),
      (26, "Virtual timer expired"), (27, "Profiling timer expired"), (29, "I/O possible"),
      (30, "Power failure"), (31, "Bad system call") ]
  (texts.lookup number).getD ("Real-time signal " ++ toString (number - 34))

/-- Signals that nothing happens on unless it is asked for. -/
def isHarmless (number : Nat) : Bool := [17, 18, 23, 28].contains number

/-- The number of a signal that a text names or spells; a name stands for at least `least`. -/
def signal? (least : Nat) (r : Raw) : Option Nat :=
  if r ≠ [] ∧ r.all Char.isDigit then
    let (n, _) := takeDigits 10 0 r.length r
    if n < signalNames.length then some n else none
  else
    let upper := r.map Char.toUpper
    ((signalNames.findIdx? fun n => n.toList == upper)).filter (least ≤ ·)

/-- The command `trap`. -/
def trap : Builtin := withOptions "" fun _ args => do
  match args with
  | [] =>
    for (number, name) in signalNames.zipIdx.map Prod.swap do
      match (← get).traps.lookup number with
      | some action => say ("trap -- ".toList ++ quoted action ++ (" " ++ name ++ "\n").toList)
      | none => pure ()
    return 0
  | first :: rest =>
    let isSignal := rest.isEmpty || (signal? 0 first).isSome
    let action := if isSignal ∨ first = ['-'] then none else some first
    for name in if isSignal then first :: rest else rest do
      match signal? 0 name with
      | none =>
        warn ("trap: " ++ shown name ++ ": bad trap\n")
        return 1
      | some number =>
        modify fun s =>
          let others := s.traps.filter fun t => t.1 != number
          { s with traps := match action with
              | some action => others ++ [(number, action)]
              | none => others }
    return 0

/-- Sends a signal to a process; tells whether there is one. -/
def send (process signal : Nat) : Act Bool := do
  let s ← get
  if s.jobs.any (·.process == process) then
    let ended := s.jobs.any fun j => j.process == process && j.ended.isSome
    unless ended || signal == 0 || isHarmless signal do
      modify fun s => { s with jobs := s.jobs.map fun j =>
        if j.process = process then { j with ended := some (128 + signal) } else j }
    return !ended
  else if process = s.process ∨ s.ancestors.contains process then
    if signal ≠ 0 then modify fun s => { s with signals := s.signals ++ [(process, signal)] }
    return true
  else return false

/-- The usage of `kill`. -/
def killUsage : String :=
  "Usage: kill [-s sigspec | -signum | -sigspec] [pid | job]... or\nkill -l [exitstatus]"

/-- The job that an argument with a percent sign names. -/
def job (r : Raw) : Act Job := do
  let s ← get
  let (n, rest) := takeDigits 10 0 r.length (r.drop 1)
  let found :=
    if rest ≠ [] then none
    else if r.length = 1 then s.jobs.getLast? else if n = 0 then none else s.jobs[n - 1]?
  match found with
  | some j => return j
  | none => fail ("No such job: " ++ shown r)

/-- The command `kill`. -/
def kill : Builtin := fun args => do
  if args.isEmpty then fail killUsage
  let byName := match args with
    | ('-' :: name) :: _ => signal? 1 name
    | _ => none
  let (letters, rest) ← if byName.isSome then pure ([], args.tail) else readOptions ['l'] ['s'] args
  let list := letters.any (·.1 == 'l')
  let given ← match letters.reverse.lookup 's' with
    | none => pure byName
    | some name =>
      match signal? 1 name with
      | some n => pure (some n)
      | none => fail ("invalid signal number or name: " ++ shown name)
  if list then
    match rest with
    | [] => say ("0\n" ++ String.join (signalNames.tail.map (· ++ "\n"))).toList
    | r :: _ =>
      let n ← number r
      let n := if 128 < n then n - 128 else n
      match if 0 < n then signalNames[n]? else none with
      | some name => say (name ++ "\n").toList
      | none => fail ("invalid signal number or exit status: " ++ shown r)
    return 0
  if rest.isEmpty then fail killUsage
  let mut status := 0
  for r in rest do
    let found ← match r with
      | '%' :: _ => send (← job r).process (given.getD 15)
      | '-' :: digits => do
        let _ ← number digits
        pure false
      | digits => send (← number digits) (given.getD 15)
    if ¬ found then
      complain "No such process\n"
      status := 1
  return status

/-! ## Asking about the shell -/

/-- A number with four octal digits. -/
def octal (n : Nat) : Raw :=
  let digits := Nat.toDigits 8 n
  List.replicate (4 - digits.length) '0' ++ digits

/-- The rights that a mask leaves to one kind of people. -/
def rightsOf (mask : Nat) : Raw :=
  (if mask / 4 % 2 = 0 then ['r'] else []) ++ (if mask / 2 % 2 = 0 then ['w'] else []) ++
    (if mask % 2 = 0 then ['x'] else [])

/-- The bits of some rights. -/
def bitsOf (rights : Raw) : Nat :=
  (if rights.contains 'r' then 4 else 0) + (if rights.contains 'w' then 2 else 0) +
    (if rights.contains 'x' then 1 else 0)

/-- A mask after a change that is spelled by letters. -/
def maskAfter? (mask : Nat) (r : Raw) : Option Nat :=
  let people := r.takeWhile "ugoa".toList.contains
  match r.drop people.length with
  | sign :: rights =>
    if ['+', '-', '='].contains sign ∧ rights.all "rwx".toList.contains then
      let all := people.isEmpty || people.contains 'a'
      let change (letter : Char) (unit : Nat) (mask : Nat) : Nat :=
        let old := mask / unit % 8
        let bits := bitsOf rights
        let new :=
          if sign = '=' then 7 - bits else if sign = '-' then old ||| bits
          else old &&& (7 - bits)
        if all || people.contains letter then mask - old * unit + new * unit else mask
      some (change 'u' 64 (change 'g' 8 (change 'o' 1 mask)))
    else none
  | [] => none

/-- The command `umask`. -/
def umask : Builtin := withOptions "S" fun letters args => do
  let mask := (← get).mask
  match args with
  | [] =>
    if letters.contains 'S' then
      say ("u=".toList ++ rightsOf (mask / 64 % 8) ++ ",g=".toList ++ rightsOf (mask / 8 % 8) ++
        ",o=".toList ++ rightsOf (mask % 8) ++ ['\n'])
    else say (octal mask ++ ['\n'])
    return 0
  | r :: _ =>
    if r.head?.any Char.isDigit then
      if r.all fun c => (digit? 8 c).isSome then
        let (n, _) := takeDigits 8 0 r.length r
        modify fun s => { s with mask := n % 512 }
      else fail ("Illegal number: " ++ shown r)
    else
      match (splitOn ',' r).foldlM maskAfter? mask with
      | some n => modify fun s => { s with mask := n }
      | none => fail ("Illegal mode: " ++ shown r)
    return 0

/-- The command `times`, for which no time passes. -/
def times : Builtin := fun _ => do
  let line := "0m0.000000s 0m0.000000s\n"
  say (line ++ line).toList
  return 0

/-- The command `jobs`. -/
def jobs : Builtin := withOptions "lp" fun letters _ => do
  let all := (← get).jobs
  for (j, i) in all.zipIdx do
    let sign := if i + 1 = all.length then "+" else if i + 2 = all.length then "-" else " "
    let state := match j.ended with
      | none => "Running"
      | some n => if n = 0 then "Done" else "Done(" ++ toString n ++ ")"
    if letters.contains 'p' then say (decimal j.process ++ ['\n'])
    else
      let front := "[" ++ toString (i + 1) ++ "] " ++ sign ++ " "
      let process := if letters.contains 'l' then toString j.process ++ " " else ""
      say (front ++ process ++ state ++ String.ofList (List.replicate (27 - state.length) ' ')
        ++ "\n").toList
  modify fun s => { s with jobs := s.jobs.filter (·.ended.isNone) }
  return 0

/-- The commands `fg` and `bg`, which need a terminal. -/
def resume : Builtin := withOptions "" fun _ args => do
  match args with
  | [] =>
    if (← get).jobs.isEmpty then fail "No current job"
    else fail "job (null) not created under job control"
  | r :: _ =>
    let _ ← job r
    fail ("job " ++ shown r ++ " not created under job control")

/-! ## Control -/

/-- The commands `break` and `continue`. -/
def leave (skip : Nat → Skip) : Builtin := fun args => do
  let count ← match args with
    | [] => pure 1
    | r :: _ =>
      let n ← number r
      if n = 0 then fail ("Illegal number: " ++ shown r)
      pure n
  let s ← get
  let count := min count s.loops
  if 0 < count then modify fun s => { s with skip := skip count }
  return 0

/-- The command `return`. -/
def comeBack : Builtin := fun args => do
  let status ← match args with
    | [] => pure (← get).status
    | r :: _ => number r
  modify fun s => { s with skip := .function (!args.isEmpty) }
  return status

/-- The command `exit`. -/
def exit : Builtin := fun args => do
  let s ← get
  let status ← match args with
    | [] => pure (s.savedStatus.getD s.status)
    | r :: _ => number r
  setStatus status
  modify fun s => { s with savedStatus := s.savedStatus.map fun _ => status }
  throw .ended

/-- The built-in commands that need no interpreter. -/
def table : List (String × Builtin) :=
  [ (":", fun _ => return 0), ("[", test true), ("alias", abbreviate), ("bg", resume),
    ("break", leave .leave), ("cd", changeDirectory), ("chdir", changeDirectory),
    ("continue", leave .again), ("echo", echo), ("exit", exit), ("export", declare false),
    ("false", fun _ => return 1), ("fg", resume), ("getopts", nextOption), ("jobs", jobs),
    ("kill", kill), ("local", hideNames), ("printf", printf), ("pwd", printDirectory),
    ("read", read), ("readonly", declare true), ("return", comeBack), ("set", set),
    ("shift", shift), ("test", test false), ("times", times), ("trap", trap),
    ("true", fun _ => return 0), ("umask", umask), ("unalias", unalias), ("unset", unsetNames) ]

/-- The built-in commands that are part of the interpreter. -/
def innerNames : List String := [".", "command", "eval", "exec", "hash", "type", "ulimit", "wait"]

/-- Whether a name is that of a built-in command. -/
def isKnown (name : Raw) : Bool :=
  (table.any fun b => b.1.toList == name) || innerNames.any fun n => n.toList == name

/-- Whether a failure of a built-in command ends a script. -/
def isSpecial (name : Raw) : Bool := Reading.specialNames.any fun n => n.toList == name

/-- Whether arguments of a built-in command may be assignments. -/
def declares (name : Raw) : Bool :=
  ["alias", "export", "local", "readonly"].any fun n => n.toList == name

end Builtin

end NetTrial.Host
