import NetTrial.Host.Builtin
/-!
# The interpreter

A command is carried out on the state of a shell and gives a status. Subshells, pipelines,
substitutions and programs that are shells themselves work on a context of their own, which is
forgotten when they end. A command that is not waited for is carried out when the shell waits
or ends. Fuel bounds how deep commands are nested and how often loops come round.
-/

namespace NetTrial.Host

open Text Shell

/-! ## Endings -/

/-- How a process came to its end. -/
inductive Ending where
  /-- With a code. -/
  | exited (code : Nat)
  /-- By a signal. -/
  | killed (signal : Nat)
  deriving DecidableEq, Repr

/-- The status that an ending counts as. -/
def Ending.status : Ending → Nat
  | .exited code => code
  | .killed signal => 128 + signal

namespace Interpreter

/-- How a command is carried out. -/
structure Flags where
  /-- Whether its failure is looked at by the command around it. -/
  tested : Bool := false
  /-- Whether the shell ends with it. -/
  last : Bool := false

/-- Says that a process was ended by a signal, unless that is common. The status. -/
def report (e : Ending) : Act Nat := do
  match e with
  | .killed signal =>
    if signal ≠ 2 ∧ signal ≠ 13 then Builtin.warn (Builtin.signalText signal ++ "\n")
  | .exited _ => pure ()
  return e.status

/-- Carries out a step and then another one that cleans up, also when the first one stops. -/
def protect {α : Type} (cleanup : Act Unit) (step : Act α) : Act α := do
  let result ← attempt step
  cleanup
  MonadExcept.ofExcept result

/-! ## Signals -/

/-- Signals to this shell that nothing is done about, so that they end it. -/
def deadly (s : Shell) : List Nat :=
  if s.isSub then []
  else s.signals.filterMap fun (process, signal) =>
    let isKept :=
      ((s.traps.lookup signal).isSome || s.ignored.contains signal) && signal != 9
    if process == s.process && !isKept && !Builtin.isHarmless signal then some signal else none

/-- Ends the shell if a signal does. -/
def checkSignals : Act Unit := do
  match deadly (← get) with
  | [] => return ()
  | signal :: _ => throw (.signal signal)

/-- Takes the signals to this shell that something is done about, in order of their
numbers. -/
def takeSignals : Act (List Nat) := modifyGet fun s =>
  if s.isSub then ([], s)
  else
    let mine := (s.signals.filter fun e => e.1 == s.process && !s.ignored.contains e.2).map Prod.snd
    (mine.mergeSort (· ≤ ·), { s with signals := s.signals.filter fun e => e.1 != s.process })

/-! ## Redirections -/

/-- A redirection whose target is known. -/
inductive Aim where
  /-- To a name. -/
  | name (stream : Nat) (opening : Opening) (name : Raw)
  /-- To what another stream leads to, or to nothing at all. -/
  | same (stream : Nat) (source : Option Nat)
  /-- From a document in the script. -/
  | document (stream number : Nat)

/-- The stream that an aim changes. -/
def Aim.stream : Aim → Nat
  | .name stream .. => stream
  | .same stream _ => stream
  | .document stream _ => stream

/-- The complaint on a file that cannot be opened for input. -/
def noInput {α : Type} (name : Raw) (cause : OsError) : Act α :=
  fail ("cannot open " ++ shown name ++ ": " ++ causeOr "No such file" cause)

/-- The complaint on a file that cannot be opened for output. -/
def noOutput {α : Type} (name : Raw) (cause : OsError) : Act α :=
  fail ("cannot create " ++ shown name ++ ": " ++ causeOr "Directory nonexistent" cause)

/-- The channel of a stream that a device name leads to. -/
def channelOf (stream : Nat) : Act Nat := do
  match (← get).streams.lookup stream with
  | some channel => return channel
  | none => openChannel .nothing false

/-- Opens a file for output and gives its channel. -/
def openOutput (opening : Opening) (name : Raw) : Act Nat := do
  let s ← get
  match s.find name with
  | .directory => noOutput name .isDirectory
  | .device =>
    if name = "/dev/stdout".toList then channelOf 1
    else if name = "/dev/stderr".toList then channelOf 2
    else openChannel .nothing true
  | .file location _ =>
    if opening = .output ∧ s.isOn 'C' then noOutput name .alreadyExists
    if opening = .output ∨ opening = .overwrite then
      modify fun s => { s with files := s.files.set location (.file []) }
    openChannel (.file location (opening = .append)) true
  | _ =>
    let path := s.pathOf name
    let above := (Path.parent? path).getD ""
    let files := if systemDirectories.contains above then (s.files.makeDirectories above).2 else s.files
    match files.writable path with
    | .error cause => noOutput name cause
    | .ok (location, _) =>
      modify fun s => { s with files := files.set location (.file []) }
      openChannel (.file location (opening = .append)) true

/-- Opens a name and gives its channel. -/
def openName (opening : Opening) (name : Raw) : Act Nat := do
  match opening with
  | .input =>
    let s ← get
    match s.find name with
    | .file location _ => openChannel (.file location false) false
    | .device => if name = "/dev/stdin".toList then channelOf 0 else openChannel .nothing true
    | .nothing cause => noInput name cause
    | _ => openChannel .nothing false
  | opening => openOutput opening name

/-- Leads a stream to a channel. -/
def connect (stream channel : Nat) : Act Unit := modify fun s =>
  { s with streams := (stream, channel) :: s.streams.filter fun e => e.1 != stream }

/-- Closes a stream. -/
def disconnect (stream : Nat) : Act Unit := modify fun s =>
  { s with streams := s.streams.filter fun e => e.1 != stream }

/-- Leads the streams of some aims back to where they led in a state. -/
def reconnect (before : Shell) (aims : List Aim) : Act Unit := do
  for a in aims do
    match before.streams.lookup a.stream with
    | some channel => connect a.stream channel
    | none => disconnect a.stream

section

variable (run : Option Command → Act Raw)

/-- The complaint on a text that is no stream; it is about the line that reading has come
to. -/
def badNumber {α : Type} : Act α := do
  modify fun s => { s with line := s.readLine }
  fail "Syntax error: Bad fd number"

/-- The aim of a redirection. -/
def aimOf : Redirection → Act Aim
  | .document stream number => return .document stream number
  | .target stream opening w => do
    if opening = .sameInput ∨ opening = .sameOutput then
      match (← fieldsOfWord run w).head? with
      | some ['-'] => return .same stream none
      | some [c] =>
        if c.isDigit then return .same stream (some (c.toNat - '0'.toNat))
        else badNumber
      | _ => badNumber
    else return .name stream opening (← textOfWord run w)

/-- Leads a stream to its aim. -/
def follow : Aim → Act Unit
  | .name stream opening name => do connect stream (← openName opening name)
  | .same stream none => disconnect stream
  | .same stream (some source) => do
    if source ≠ stream then
      match (← get).streams.lookup source with
      | some channel => connect stream channel
      | none => fail (toString source ++ ": Bad file descriptor")
  | .document stream number => do
    let text ← textOfDocument run (((← get).documents.lookup number).getD [])
    let channel ← openChannel .buffer false
    writeChannel channel text
    connect stream channel

/-- The arguments that the words of a simple command stand for. Behind a command that sets
variables, words that are assignments are not split. -/
def argsOf : List Word → Act (List Raw)
  | [] => return []
  | w :: rest => do
    match ← fieldsOfWord run w with
    | [] => argsOf rest
    | name :: more =>
      let isFunction := ((← get).functions.lookup name).isSome
      let others ←
        if isFunction then rest.mapM (fieldsOfWord run)
        else if Builtin.declares name then rest.mapM (textOfDeclaration run)
        else if name = "command".toList then do pure [← argsOf rest]
        else rest.mapM (fieldsOfWord run)
      return name :: more ++ others.flatten

end

/-! ## Finding commands -/

/-- What a name can be started as. -/
inductive Startable where
  /-- A program of the host. -/
  | program (name : String)
  /-- A script. -/
  | script (name text : Raw)
  /-- Nothing; what is said about it and the status that it counts as. -/
  | refused (message : String) (status : Nat)

/-- What is at a path that is to be started. -/
def startableAt (s : Shell) (name : Raw) : Startable :=
  match s.find name with
  | .program p => .program p
  | .directory | .device => .refused "Permission denied" 126
  | .file location bytes =>
    if s.runnable.contains location then .script name (rawOfBytes bytes)
    else .refused "Permission denied" 126
  | .nothing .nameTooLong => .refused "File name too long" 127
  | .nothing _ => .refused "not found" 127

/-- The search path of the host. -/
def hostPath : Raw := "/usr/local/sbin:/usr/local/bin:/usr/sbin:/usr/bin:/sbin:/bin".toList

/-- The paths of a name in the directories of the search path. -/
def candidates (path name : Raw) : List Raw :=
  (splitOn ':' path).map fun d => if d = [] then name else d ++ '/' :: name

/-- What a name is found as on the search path, and its path. -/
def search (s : Shell) (path name : Raw) : Raw × Startable :=
  let found := (candidates path name).map fun c => (c, startableAt s c)
  let isStarted (e : Raw × Startable) : Bool := match e.2 with
    | .refused .. => false
    | _ => true
  let isDenied (e : Raw × Startable) : Bool := match e.2 with
    | .refused _ status => status == 126
    | _ => false
  match found.find? isStarted with
  | some e => e
  | none => (name, if found.any isDenied then .refused "Permission denied" 126
      else .refused "not found" 127)

/-- The search path of a shell. -/
def searchPath (s : Shell) : Raw := (s.value? "PATH".toList).getD hostPath

/-- What a command is. -/
inductive Target where
  /-- No command at all. -/
  | nothing
  /-- A function. -/
  | function (body : Command)
  /-- A built-in command. -/
  | builtin (name : Raw)
  /-- A program, looked for on a search path. -/
  | external (path : Raw)

/-- The arguments behind `command` and its options, and the search path for them; none if it
only tells about commands. -/
def behindCommand? (path : Raw) : List Raw → Option (List Raw × Raw)
  | [] => none
  | ('-' :: c :: cs) :: rest =>
    if c = '-' ∧ cs = [] then if rest.isEmpty then none else some (rest, path)
    else if (c :: cs).all (· = 'p') then behindCommand? hostPath rest
    else none
  | args => some (args, path)

/-- What some arguments ask for and the arguments without those that only say so, at most
`fuel` of them. `plain` tells whether functions are left out. -/
def targetOf (s : Shell) (plain : Bool) (path : Raw) : (fuel : Nat) → List Raw → Target × List Raw
  | _, [] => (.nothing, [])
  | 0, args => (.external path, args)
  | fuel + 1, name :: args =>
    match if plain then none else s.functions.lookup name with
    | some body => (.function body, name :: args)
    | none =>
      if name = "command".toList then
        match behindCommand? path args with
        | some (rest, path) => targetOf s true path fuel rest
        | none => (.builtin name, name :: args)
      else if Builtin.isKnown name then (.builtin name, name :: args)
      else (.external path, name :: args)

/-- Whether arguments open with a built-in command whose failure ends a script; none if they
open with none. -/
def specialAt? (s : Shell) : List Raw → Option Bool
  | [] => none
  | name :: _ =>
    if (s.functions.lookup name).isSome ∨ ¬ Builtin.isKnown name then none
    else some (Builtin.isSpecial name)

/-! ## Telling about commands -/

/-- Tells what a name is; `verbose` in words. -/
def describe (verbose : Bool) (path : Option Raw) (name : Raw) : Act Nat := do
  let s ← get
  let tell (words : String) (brief : Raw) : Act Nat := do
    Builtin.say ((if verbose then name ++ words.toList else brief) ++ ['\n'])
    return 0
  if (keyword? name).isSome then tell " is a shell keyword" name
  else match s.aliases.lookup name with
    | some text =>
      tell (" is an alias for " ++ shown text) ("alias ".toList ++ name ++ '=' :: Builtin.quoted text)
    | none =>
      if (s.functions.lookup name).isSome then tell " is a shell function" name
      else if Builtin.isKnown name then
        tell (if Builtin.isSpecial name then " is a special shell builtin" else " is a shell builtin")
          name
      else
        let (place, found) :=
          if name.contains '/' then
            (name, if s.isThere name then .program "" else .refused "not found" 127)
          else search s (path.getD (searchPath s)) name
        match found with
        | .refused .. =>
          if verbose then Builtin.say (name ++ ": not found\n".toList)
          return 127
        | _ =>
          let tracked := path.isNone && (s.found.lookup name).isSome
          let word := if tracked then " is a tracked alias for " else " is "
          unless name.contains '/' do
            modify fun s => { s with found := put s.found name place }
          tell (word ++ shown place) place

/-- The command `hash`. -/
def rememberPaths : Builtin := Builtin.withOptions "r" fun letters args => do
  if letters.contains 'r' then
    modify fun s => { s with found := [] }
    return 0
  if args.isEmpty then
    for (_, place) in inSlots 31 (← get).found do Builtin.say (place ++ ['\n'])
    return 0
  let mut status := 0
  for name in args do
    let s ← get
    match search s (searchPath s) name with
    | (_, .refused message _) =>
      unless Builtin.isKnown name do
        complain (shown name ++ ": " ++ message)
        status := 1
    | (place, _) => modify fun s => { s with found := put s.found name place }
  return status

/-- The command `ulimit`, for which there are no limits. -/
def showLimit : Builtin := fun args => do
  if args.all fun r => r.head? = some '-' then Builtin.say "unlimited\n".toList
  return 0

/-! ## Programs -/

/-- Runs a program that needs no shell. Copying is refused at once when nothing can be
printed. -/
def runProgram (name : String) (program : Program) (args : List Raw) : Act Ending := do
  let s ← get
  if name = "cat" ∧ (s.channel? 1).isNone then
    Builtin.warn "cat: standard output: Bad file descriptor\n"
    return .exited 1
  let input := s.readable 0
  let e := program
    { args := args, files := s.files, runnable := s.runnable, directory := s.directory, input := input }
  modify fun s => { s with files := e.files, runnable := e.runnable }
  if e.usedInput then advance 0 input.length
  Builtin.warn e.stderr
  if ← write 1 e.stdout then return .exited e.code
  else
    Builtin.warn (name ++ ": write error: Bad file descriptor\n")
    return .exited 1

/-- Runs a built-in command as a program of its own. -/
def runStarter (name : String) (b : Builtin) (args : List Raw) : Act Ending := do
  let before ← get
  modify fun s => { s with name := name.toList, speaker := none }
  let result ← attempt (b args)
  modify fun s => { s with name := before.name, speaker := before.speaker, status := before.status }
  match result with
  | .ok status => return .exited status
  | .error _ => return .exited 2

/-- The variables that a shell starts with. -/
def firstVariables (environment : List (Raw × Raw)) : List (Raw × Variable) :=
  let own : List (String × String) :=
    [("IFS", " \t\n"), ("OPTIND", "1"), ("PS1", "# "), ("PS2", "> "), ("PS4", "+ ")]
  let given := environment.map fun (name, value) =>
    (name, ({ value := some value, exported := true } : Variable))
  own.foldl (fun vs (name, value) =>
    put vs name.toList { value := some value.toList }) given

/-- A context for a shell that is started from another one. -/
def nestedContext (s : Shell) (name : Raw) : Context :=
  { name := name
    process := s.process + s.processes + 1
    ancestors := s.process :: s.ancestors
    directory := s.directory
    bindings := firstVariables s.environment
    streams := s.streams
    mask := s.mask
    ignored := s.ignored ++ (s.traps.filter fun t => t.2.isEmpty).map Prod.fst }

/-! ## Carrying out commands -/

/-- Keeps a command for later. -/
def postpone (body : Command) (redirections : List Redirection) : Act Unit := do
  let nothing ← openChannel .nothing false
  modify fun s =>
    let process := s.process + s.processes + 1
    let body := if redirections.isEmpty then body else .redirected s.line body redirections
    let context := { s.toContext with
      streams := (0, nothing) :: s.streams.filter fun e => e.1 != 0 }
    { s with
      processes := s.processes + 1
      lastProcess := some process
      jobs := s.jobs ++ [{ process := process, context := context, body := body }] }

/-- A loop that comes to the end of a round: the loop goes on, or it ends. -/
def goesOn : Act Bool := modifyGet fun s =>
  match s.skip with
  | .none => (true, s)
  | .function given => (false, { s with skip := .function given })
  | .leave n => (false, { s with skip := if n ≤ 1 then .none else .leave (n - 1) })
  | .again n => (n ≤ 1, { s with skip := if n ≤ 1 then .none else .again (n - 1) })

/-- Prints a simple command to a channel before it is carried out. -/
def trace (channel : Option Nat) (front : Raw) (assignments : List (Raw × Raw)) (args : List Raw) :
    Act Unit := do
  let texts := (assignments.map fun (name, value) => name ++ '=' :: value) ++ args
  match channel with
  | some channel => writeChannel channel (front ++ joinRaw texts ++ ['\n'])
  | none => return ()

/-- How a shell ended, by what stopped it. -/
def endingOf (s : Shell) : Except Stop Unit → Ending
  | .error (.signal n) => .killed n
  | _ => .exited (s.status % 256)

/-! ## Errands

The parts of the interpreter below ask each other for what they need. What is asked for is an
errand; `send` has it carried out.
-/

/-- What one part of the interpreter asks another one for, with the kind of the answer. -/
inductive Errand : Type → Type where
  /-- The status of a command. -/
  | eval (f : Flags) (c : Command) : Errand Nat
  /-- A command, whose status is left in the shell. -/
  | step (f : Flags) (c : Command) : Errand Bool
  /-- The rounds of a loop that are to come. -/
  | rounds (f : Flags) (untilSuccess : Bool) (test body : Command) (status : Nat) : Errand Nat
  /-- The rounds of a loop over the fields that are left. -/
  | each (f : Flags) (name : Raw) (body : Command) (fields : List Raw) (status : Nat) : Errand Nat
  /-- The branch of a choice. -/
  | choose (text : Raw) (branches : List Branch) : Errand (Option Command)
  /-- A comparison with patterns. -/
  | matchesAny (text : Raw) (patterns : List Word) : Errand Bool
  /-- The stages of a pipeline that are left. -/
  | stages (f : Flags) (source : Option Nat) (commands : List Command) : Errand Nat
  /-- What a command prints. -/
  | captured (c : Option Command) : Errand Raw
  /-- A step in a subshell. -/
  | inSubshell (body : Act Unit) : Errand Ending
  /-- The end of a shell. -/
  | finish (result : Except Stop Unit) : Errand Ending
  /-- Some of the commands that were not waited for. -/
  | catchUp (count : Nat) : Errand Unit
  /-- What is to be done on signals. -/
  | answer : Errand Unit
  /-- A script. -/
  | script (f : Flags) (text : Raw) : Errand Nat
  /-- The lines of a script that are left. -/
  | lines (f : Flags) (source : Source) (status : Nat) : Errand Nat
  /-- A simple command. -/
  | simple (f : Flags) (assignments words : List Word) (rs : List Redirection) : Errand Nat
  /-- What is printed in front of a command. -/
  | prompt : Errand Raw
  /-- What some arguments ask for. -/
  | carryOut (f : Flags) (special : Option Bool) (target : Target) (args : List Raw) : Errand Nat
  /-- A function. -/
  | call (f : Flags) (body : Command) (args : List Raw) : Errand Nat
  /-- A built-in command. -/
  | builtin (f : Flags) (name : Raw) (args : List Raw) : Errand Nat
  /-- A program in place of the shell. -/
  | replace (found : Startable) (args : List Raw) : Errand Nat
  /-- A program. -/
  | start (found : Startable) (args : List Raw) : Errand Ending
  /-- A step in a shell of its own. -/
  | nested (name : Raw) (body : Act Nat) (args : List Raw) : Errand Ending
  /-- What the arguments of a shell ask for. -/
  | invoke (args : List Raw) : Errand Nat
  /-- The program `env`. -/
  | environment (given : List (Raw × Variable)) (args : List Raw) : Errand Ending

section

variable (send : {α : Type} → Errand α → Act α)

/-- Carries out a command and gives its status. -/
def eval (f : Flags) (c : Command) : Act Nat := do
  if (← get).isOn 'n' then
    if f.last then throw .ended
    return (← get).status
  send .answer
  let checked ← send (.step f c)
  send .answer
  let s ← get
  if checked ∧ s.isOn 'e' ∧ ¬ f.tested ∧ s.status ≠ 0 then throw .ended
  if f.last then throw .ended
  return s.status

/-- Carries out a command and leaves its status in the shell. Tells whether its failure may
end the shell. -/
def step (f : Flags) (c : Command) : Act Bool := do
  let run (body : Option Command) : Act Raw := send (.captured body)
  let inner : Flags := { tested := f.tested }
  match c with
  | .simple line assignments words rs =>
    modify fun s => { s with line := line }
    setStatus (← send (.simple f assignments words rs))
    return true
  | .negated body =>
    let status ← send (.eval { tested := true } body)
    if (← get).skip = .none then setStatus (if status = 0 then 1 else 0)
    return false
  | .sequence first second =>
    let _ ← send (.eval inner first)
    if (← get).skip = .none then
      let _ ← send (.eval f second)
    return false
  | .both first second =>
    let status ← send (.eval { tested := true } first)
    if status = 0 ∧ (← get).skip = .none then
      let _ ← send (.eval f second)
    return false
  | .either first second =>
    let status ← send (.eval { tested := true } first)
    if status ≠ 0 ∧ (← get).skip = .none then
      let _ ← send (.eval f second)
    return false
  | .branch test body otherwise =>
    let status ← send (.eval { tested := true } test)
    if (← get).skip ≠ .none then return false
    if status = 0 then
      let _ ← send (.eval f body)
    else match otherwise with
      | some body => let _ ← send (.eval f body)
      | none => setStatus 0
    return false
  | .loop untilSuccess test body =>
    modify fun s => { s with loops := s.loops + 1 }
    let status ← send (.rounds inner untilSuccess test body 0)
    modify fun s => { s with loops := s.loops - 1, status := status }
    return false
  | .each line name words body =>
    modify fun s => { s with line := line }
    let fields ← words.mapM (fieldsOfWord run)
    modify fun s => { s with loops := s.loops + 1 }
    let status ← send (.each inner name body fields.flatten 0)
    modify fun s => { s with loops := s.loops - 1, status := status }
    return false
  | .choose line word branches =>
    modify fun s => { s with line := line }
    let text ← textOfWord run word
    match ← send (.choose text branches) with
    | some body => let _ ← send (.eval f body)
    | none => setStatus 0
    return false
  | .define _ name body =>
    modify fun s =>
      { s with functions := (name, body) :: s.functions.filter fun e => e.1 != name, status := 0 }
    return false
  | .redirected line body rs =>
    modify fun s => { s with line := line }
    let aims ← rs.mapM (aimOf run)
    let before ← get
    protect (reconnect before aims) do
      match ← attempt (aims.forM (follow run)) with
      | .error .fault =>
        setStatus faultStatus
        return true
      | .error stop => throw stop
      | .ok () =>
        let _ ← send (.eval inner body)
        return false
  | .subshell line body rs =>
    modify fun s => { s with line := line }
    let aims ← rs.mapM (aimOf run)
    let inside (f : Flags) : Act Unit := do
      aims.forM (follow run)
      let _ ← send (.eval { f with last := true } body)
    if f.last ∧ (← get).traps.isEmpty then inside f
    else setStatus (← report (← send (.inSubshell (inside inner))))
    return true
  | .background line body rs =>
    modify fun s => { s with line := line }
    postpone body rs
    setStatus 0
    return true
  | .pipeline commands background =>
    if background then
      postpone (.pipeline commands false) []
      setStatus 0
    else
      setStatus (← send (.stages inner none commands))
    return true

/-- The rounds of a loop, given the status so far. -/
def rounds (f : Flags) (untilSuccess : Bool) (test body : Command) (status : Nat) : Act Nat := do
  let tested ← send (.eval { tested := true } test)
  match (← get).skip with
  | .none =>
    if (tested = 0) = (untilSuccess = true) then return status
    let status ← send (.eval f body)
    if ← goesOn then send (.rounds f untilSuccess test body status) else return status
  | .function _ => return tested
  | _ => if ← goesOn then send (.rounds f untilSuccess test body status) else return status

/-- The rounds of a loop over fields, given the status so far. -/
def each (f : Flags) (name : Raw) (body : Command) : List Raw → (status : Nat) → Act Nat
  | [], status => return status
  | field :: rest, _ => do
    setValue name field
    let status ← send (.eval f body)
    if ← goesOn then send (.each f name body rest status) else return status

/-- What follows the first pattern that matches a text. -/
def choose (text : Raw) : List Branch → Act (Option Command)
  | [] => return none
  | .mk patterns body :: rest => do
    if ← send (.matchesAny text patterns) then return body else send (.choose text rest)

/-- Whether one of some patterns matches a text. -/
def matchesAny (text : Raw) : List Word → Act Bool
  | [] => return false
  | p :: rest => do
    let pattern ← patternOfWord (fun body => send (.captured body)) p
    if Pattern.isMatch pattern text then return true else send (.matchesAny text rest)

/-- The stages of a pipeline; the first one reads from a channel if one is given. -/
def stages (f : Flags) (source : Option Nat) : List Command → Act Nat
  | [] => return 0
  | c :: rest => do
    let sink ← if rest.isEmpty then pure none else some <$> openChannel .buffer true
    let ending ← send <| .inSubshell do
      match source with
      | some channel => connect 0 channel
      | none => pure ()
      match sink with
      | some channel => connect 1 channel
      | none => pure ()
      let _ ← send (.eval { f with last := true } c)
    let status ← report ending
    if rest.isEmpty then return status else send (.stages f sink rest)

/-- What a command prints. -/
def captured : Option Command → Act Raw
  | none => return []
  | some c => do
    let channel ← openChannel .buffer true
    let ending ← send <| .inSubshell do
      connect 1 channel
      let _ ← send (.eval { last := true } c)
    let status ← report ending
    modify fun s => { s with outputStatus := status }
    return (((← get).channels[channel]?).map fun c => c.content.reverse).getD []

/-- Carries out a step in a subshell. -/
def inSubshell (body : Act Unit) : Act Ending := do
  let before ← get
  modify fun s =>
    { s with
      isSub := true, jobs := [], savedStatus := none, readLine := 1
      traps := s.traps.filter fun t => t.2.isEmpty }
  let ending ← send (.finish (← attempt body))
  modify fun s => { s with toContext := before.toContext, jobs := before.jobs }
  checkSignals
  return ending

/-- Ends a shell that has come to its end or was stopped: what is done at the end, and the
commands that were not waited for. -/
def finish (result : Except Stop Unit) : Act Ending := do
  let s ← get
  let result ← match result, s.traps.lookup 0 with
    | .error (.signal n), _ => pure (.error (.signal n))
    | .error .replaced, _ => pure (.error .replaced)
    | result, none => pure result
    | _, some action =>
      modify fun s =>
        { s with
          traps := s.traps.filter fun t => t.1 != 0
          skip := .none, savedStatus := some s.status }
      match ← attempt (send (.script {} action)) with
      | .ok _ =>
        setStatus s.status
        pure (.ok ())
      | .error stop => pure (.error stop)
  let ending := endingOf (← get) result
  send (.catchUp (← get).jobs.length)
  return ending

/-- Carries out so many of the commands that were not waited for. -/
def catchUp : (count : Nat) → Act Unit
  | 0 => return ()
  | count + 1 => do
    match (← get).jobs.find? fun j => j.ended.isNone with
    | none => return ()
    | some j =>
      let before ← get
      let note (ended : Nat) : Act Unit := modify fun s =>
        { s with jobs := s.jobs.map fun k =>
            if k.process = j.process then { k with ended := some ended } else k }
      note 0
      modify fun s => { s with toContext := j.context }
      let ending ← send <| .inSubshell do
        let _ ← send (.eval { last := true } j.body)
      modify fun s => { s with toContext := before.toContext }
      note ending.status
      send (.catchUp count)

/-- Does what is to be done on the signals to this shell. -/
def answer : Act Unit := do
  checkSignals
  if (← get).skip = .none then
    for signal in ← takeSignals do
      match (← get).traps.lookup signal with
      | none => pure ()
      | some action =>
        let before ← get
        let status := before.savedStatus.getD before.status
        modify fun s => { s with savedStatus := some status }
        let _ ← send (.script {} action)
        modify fun s =>
          { s with
            savedStatus := before.savedStatus
            status := if s.skip = .function true then s.status else status }

/-- Reads a script and carries out its commands line by line. -/
def script (f : Flags) (text : Raw) : Act Nat := do
  let before ← get
  let count := (before.documents.map Prod.fst).foldl max 0 + 1
  let status ← send (.lines f { rest := text, count := count } 0)
  modify fun s => { s with readLine := before.readLine }
  return status

/-- Carries out the lines of a script, given the status so far. -/
def lines (f : Flags) (source : Source) (status : Nat) : Act Nat := do
  match Reading.readLine.run { source with aliases := (← get).aliases, documents := [] } with
  | .error fault =>
    modify fun s => { s with line := fault.line }
    fail fault.message
  | .ok (.ended, _) => return status
  | .ok (.line c, source) =>
    modify fun s =>
      { s with documents := source.documents ++ s.documents, readLine := source.line }
    let atEnd := source.returned matches some .eof
    match c with
    | none =>
      if f.last ∧ atEnd then throw .ended
      send (.lines f source status)
    | some c =>
      let status ← send (.eval { f with last := f.last && atEnd } c)
      if (← get).skip = .none then send (.lines f source status) else return status

/-- Carries out a simple command. -/
def simple (f : Flags) (assignments words : List Word) (rs : List Redirection) : Act Nat := do
  let run (body : Option Command) : Act Raw := send (.captured body)
  modify fun s => { s with outputStatus := 0 }
  let all ← argsOf run words
  let before ← get
  let (target, args) := targetOf before false (searchPath before) (all.length + 1) all
  let special := specialAt? before all
  let isLocal := special ≠ some true && !all.isEmpty
  let isExec := args.head? = some "exec".toList && target matches .builtin _
  let aims ← rs.mapM (aimOf run)
  let depth := before.hidden.length
  if isLocal then openFrame
  let result ← attempt do
    match ← attempt (aims.forM (follow run)) with
    | .error .fault =>
      setStatus faultStatus
      if special = some true then throw .fault
      return faultStatus
    | .error stop => throw stop
    | .ok () =>
      let mut values := []
      for w in assignments do
        let (name, value) := (assignment? w).getD ([], [])
        let text ← textOfValue run value
        if isLocal then hide name
        assign name (some text) (isLocal || (isExec && args.length > 1))
        values := values ++ [(name, text)]
      if (← get).isOn 'x' then
        let front ← send .prompt
        trace (before.streams.lookup 2) front values all
      send (.carryOut f special target args)
  let failed := result matches .error _
  if failed ∨ ¬ isExec then reconnect before aims
  if ¬ failed ∧ isLocal then
    for _ in List.range ((← get).hidden.length - depth) do closeFrame
  MonadExcept.ofExcept result

/-- What is printed in front of a command that is shown. -/
def prompt : Act Raw := do
  let text := ((← get).value? "PS4".toList).getD []
  modify fun s => { s with options := s.options.filter (· ≠ 'x') }
  let read := (Reading.wordFrom (Reading.enough text) .document [] false).run { rest := text }
  let result ← match read with
    | .ok ((parts, _), _) => textOfDocument (fun body => send (.captured body)) parts.reverse
    | .error _ => pure text
  modify fun s => { s with options := 'x' :: s.options }
  return result

/-- Carries out what some arguments ask for. -/
def carryOut (f : Flags) (special : Option Bool) (target : Target) (args : List Raw) : Act Nat := do
  let name := args.headD []
  match target with
  | .nothing => return (← get).outputStatus
  | .function body => send (.call f body args.tail)
  | .builtin name =>
    let before ← get
    modify fun s => { s with speaker := some name, lost := false }
    let result ← attempt (send (.builtin f name args.tail))
    let lost := (← get).lost
    if lost then complain (shown name ++ ": I/O error")
    modify fun s => { s with speaker := before.speaker, lost := false }
    match result with
    | .ok status => return if lost then status ||| 1 else status
    | .error .fault =>
      if special = some true then throw .fault
      modify fun s => { s with streams := before.streams }
      for _ in List.range ((← get).hidden.length - before.hidden.length) do closeFrame
      return (← get).status
    | .error stop => throw stop
  | .external path =>
    let s ← get
    let (place, found) :=
      if name.contains '/' then (name, startableAt s name) else search s path name
    match found with
    | .refused message status =>
      complain (shown name ++ ": " ++ message)
      let status := if name.contains '/' then status else 127
      if f.last ∧ s.traps.isEmpty ∧ name.contains '/' then
        setStatus status
        throw .ended
      return status
    | found =>
      unless name.contains '/' do
        modify fun s => { s with found := put s.found name place }
      if f.last ∧ s.traps.isEmpty then send (.replace found args)
      else
        let ending ← send (.start found args)
        checkSignals
        report ending

/-- Carries out a function. -/
def call (f : Flags) (body : Command) (args : List Raw) : Act Nat := do
  let before ← get
  if 1000 ≤ before.depth then fail "Maximum function recursion depth (1000) reached"
  modify fun s =>
    { s with
      args := args, optionIndex := 1, optionOffset := none, loops := 0, depth := s.depth + 1 }
  let result ← attempt (send (.eval { tested := f.tested } body))
  modify fun s =>
    { s with
      args := before.args, optionIndex := before.optionIndex
      optionOffset := before.optionOffset, loops := before.loops, depth := before.depth
      skip := match s.skip with
        | .function _ => .none
        | skip => skip }
  let _ ← MonadExcept.ofExcept result
  return (← get).status

/-- Carries out a built-in command. -/
def builtin (f : Flags) (name : Raw) (args : List Raw) : Act Nat := do
  if name = "eval".toList then
    let args := if args.head? = some ['-', '-'] then args.tail else args
    if args.isEmpty then return 0 else send (.script { tested := f.tested } (joinRaw args))
  else if name = ".".toList then
    let (_, args) ← Builtin.readOptions [] [] args
    match args with
    | [] => return 0
    | file :: _ =>
      let s ← get
      let isText (r : Raw) : Bool := match s.find r with
        | .file .. => true
        | _ => false
      let place ←
        if file.contains '/' then pure file
        else match (candidates (searchPath s) file).find? isText with
          | some place => pure place
          | none => fail (shown file ++ ": not found")
      match s.find place with
      | .nothing _ => fail ("cannot open " ++ shown place ++ ": No such file")
      | found =>
        modify fun s => { s with speaker := some place }
        let status ← send (.script {} (match found with
          | .file _ bytes => rawOfBytes bytes
          | _ => []))
        modify fun s =>
          { s with
            speaker := some name
            skip := match s.skip with
              | .function _ => .none
              | skip => skip }
        return status
  else if name = "command".toList then
    let (letters, args) ← Builtin.readOptions "pvV".toList [] args
    let letters := letters.map Prod.fst
    let path := if letters.contains 'p' then some hostPath else none
    let verbose := (letters.filter (· ≠ 'p')).getLast? == some 'V'
    match letters.any (· ≠ 'p'), args with
    | true, name :: _ => describe verbose path name
    | _, _ => return 0
  else if name = "type".toList then
    let mut status := 0
    for name in args do
      let found ← describe true none name
      status := status ||| found
    return status
  else if name = "exec".toList then
    let (_, args) ← Builtin.readOptions [] [] args
    match args with
    | [] => return 0
    | file :: _ =>
      let s ← get
      match if file.contains '/' then startableAt s file else (search s (searchPath s) file).2 with
      | .refused message status =>
        complain (shown file ++ ": " ++ message)
        setStatus status
        throw .ended
      | found => send (.replace found args)
  else if name = "wait".toList then
    let (_, args) ← Builtin.readOptions [] [] args
    send (.catchUp (← get).jobs.length)
    let mut status := 0
    for r in args do
      let s ← get
      let found ←
        if r.head? = some '%' then do pure (some (← Builtin.job r))
        else do
          let n ← Builtin.number r
          pure (s.jobs.find? fun j => j.process == n)
      match found.bind (·.ended) with
      | none => status := 127
      | some ended =>
        status := ended
        if 128 < ended then
          let _ ← report (.killed (ended - 128))
    if args.isEmpty then modify fun s => { s with jobs := [] }
    return status
  else if name = "hash".toList then rememberPaths args
  else if name = "ulimit".toList then showLimit args
  else match Builtin.table.find? fun b => b.1.toList == name with
    | some (_, b) => b args
    | none => return 127

/-- Starts a program in place of the shell. -/
def replace (found : Startable) (args : List Raw) : Act Nat := do
  match ← send (.start found args) with
  | .exited code =>
    setStatus code
    throw .replaced
  | .killed signal => throw (.signal signal)

/-- Starts a program and waits for it. -/
def start (found : Startable) (args : List Raw) : Act Ending := do
  modify fun s => { s with processes := s.processes + 1 }
  let name := args.headD []
  match found with
  | .refused _ status => return .exited status
  | .script name text => send (.nested name (send (.script {} text)) args.tail)
  | .program p =>
    if shellNames.contains p then send (.nested name (send (.invoke args.tail)) [])
    else if p = "env" then
      send (.environment (inSlots 39 (← get).bindings) args.tail)
    else if p = "[" then runStarter p (Builtin.test true) args.tail
    else if p = "test" then runStarter p (Builtin.test false) args.tail
    else if p = "kill" then runStarter p Builtin.kill args.tail
    else if p = "pwd" then runStarter p Builtin.printDirectory args.tail
    else match program? p with
      | some program =>
        if p = "sleep" then send (.catchUp (← get).jobs.length)
        runProgram p program args.tail
      | none => return .exited 127

/-- Carries out a step in a shell of its own under a name. -/
def nested (name : Raw) (body : Act Nat) (args : List Raw) : Act Ending := do
  let before ← get
  modify fun s => { s with toContext := { nestedContext s name with args := args }, jobs := [] }
  let ending ← send (.finish (← attempt do let _ ← body))
  modify fun s => { s with toContext := before.toContext, jobs := before.jobs }
  return ending

/-- Carries out what the arguments of the shell ask for. -/
def invoke (args : List Raw) : Act Nat := do
  modify fun s => { s with line := 0 }
  let (rest, _) ← Builtin.readSwitches ['c', 'l'] (args.length + 1) args
  let s ← get
  modify fun s => { s with line := 1, options := s.options.filter fun c => c ≠ 'c' ∧ c ≠ 'l' }
  let rename (name : Raw) (args : List Raw) : Act Unit :=
    modify fun s => { s with name := name, args := args }
  if s.isOn 'c' then
    match rest with
    | [] =>
      modify fun s => { s with line := 0 }
      fail "-c requires an argument"
    | text :: rest =>
      match rest with
      | [] => pure ()
      | name :: args => rename name args
      send (.script {} text)
  else match if s.isOn 's' then [] else rest with
    | [] =>
      let text := s.readable 0
      advance 0 text.length
      rename s.name rest
      send (.script {} text)
    | file :: args =>
      match s.find file with
      | .nothing _ =>
        modify fun s => { s with line := 0 }
        fail ("cannot open " ++ shown file ++ ": No such file")
      | found =>
        rename file args
        send (.script {} (match found with
          | .file _ bytes => rawOfBytes bytes
          | _ => []))

/-- The program `env`: changes some variables and starts another program, or prints them. -/
def environment (given : List (Raw × Variable)) (args : List Raw) : Act Ending := do
  let before ← get
  let (options, rest) := args.span fun r => r = ['-', 'i'] || r = ['-']
  let settings := rest.takeWhile (·.contains '=')
  let command := rest.drop settings.length
  let bindings := settings.foldl (fun vs r =>
    let (name, value) := Builtin.splitDeclaration r
    put vs name { value := value, exported := true }) (if options.isEmpty then given else [])
  modify fun s => { s with bindings := bindings }
  let s ← get
  let ending ← match command with
    | [] => do
      Builtin.say (s.environment.flatMap fun (name, value) => name ++ '=' :: (value ++ ['\n']))
      pure (.exited 0)
    | name :: _ =>
      match if name.contains '/' then startableAt s name else (search s (searchPath s) name).2 with
      | .refused message status => do
        let message := if message = "not found" then "No such file or directory" else message
        Builtin.warn ("env: " ++ inQuotes name ++ ": " ++ message ++ "\n")
        pure (.exited status)
      | .program "env" => send (.environment bindings command.tail)
      | found => send (.start found command)
  modify fun s => { s with bindings := before.bindings }
  return ending

/-- Carries out an errand, sending others. -/
def Errand.fulfil : {α : Type} → Errand α → Act α
  | _, .eval f c => Interpreter.eval send f c
  | _, .step f c => Interpreter.step send f c
  | _, .rounds f untilSuccess test body status =>
    Interpreter.rounds send f untilSuccess test body status
  | _, .each f name body fields status => Interpreter.each send f name body fields status
  | _, .choose text branches => Interpreter.choose send text branches
  | _, .matchesAny text patterns => Interpreter.matchesAny send text patterns
  | _, .stages f source commands => Interpreter.stages send f source commands
  | _, .captured c => Interpreter.captured send c
  | _, .inSubshell body => Interpreter.inSubshell send body
  | _, .finish result => Interpreter.finish send result
  | _, .catchUp count => Interpreter.catchUp send count
  | _, .answer => Interpreter.answer send
  | _, .script f text => Interpreter.script send f text
  | _, .lines f source status => Interpreter.lines send f source status
  | _, .simple f assignments words rs => Interpreter.simple send f assignments words rs
  | _, .prompt => Interpreter.prompt send
  | _, .carryOut f special target args => Interpreter.carryOut send f special target args
  | _, .call f body args => Interpreter.call send f body args
  | _, .builtin f name args => Interpreter.builtin send f name args
  | _, .replace found args => Interpreter.replace send found args
  | _, .start found args => Interpreter.start send found args
  | _, .nested name body args => Interpreter.nested send name body args
  | _, .invoke args => Interpreter.invoke send args
  | _, .environment given args => Interpreter.environment send given args

end

/-- The answer to an errand that can no longer be carried out. -/
def Errand.giveUp : {α : Type} → Errand α → Act α
  | _, .choose .. => return none
  | _, .matchesAny .. => return false
  | _, .captured _ => return []
  | _, .prompt => return []
  | _, .inSubshell _ => return .exited 0
  | _, .start .. => return .exited 0
  | _, .nested .. => return .exited 0
  | _, .environment .. => return .exited 0
  | _, .finish result => return endingOf (← get) result
  | _, .catchUp _ => return ()
  | _, .answer => return ()
  | _, .stages .. => return 0
  | _, .script .. => return 0
  | _, .invoke _ => return 0
  | _, .lines _ _ status => return status
  | _, _ => throw .ended

/-- Carries out an errand and all that it leads to; each errand is sent with less fuel than the
one that it is sent for. -/
def perform : (fuel : Nat) → {α : Type} → Errand α → Act α
  | 0, _, e => e.giveUp
  | fuel + 1, _, e => e.fulfil (perform fuel)

/-- More steps than commands are nested in and loops come round. -/
def enough : Nat := 1000000

end Interpreter

end NetTrial.Host
