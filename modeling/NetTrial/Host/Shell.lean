import NetTrial.Host.Reader
import NetTrial.Host.Programs
/-!
# The state of a shell

A shell has a context of its own: parameters, functions, options, streams and the directory
that it works in. A subshell starts with a copy of it, and what happens to the copy is
forgotten at its end. The files, what is written to open channels and the signals to the
first shell are shared by all of them.

A step of a shell changes its state and may stop it: by its own will, by a fault, or by a
signal.
-/

namespace NetTrial.Host

open Text

/-! ## Channels -/

/-- What a channel leads to. -/
inductive Channel.Kind where
  /-- Nothing: reading ends at once, and what is written is gone. -/
  | nothing
  /-- A buffer. -/
  | buffer
  /-- A file; whether every text is written at its end. -/
  | file (location : Location) (atEnd : Bool)
  deriving DecidableEq, Repr, Inhabited

/-- An open channel. -/
structure Channel where
  /-- What it leads to. -/
  kind : Channel.Kind := .nothing
  /-- Whether it can be written to. -/
  isOutput : Bool := true
  /-- What a buffer holds, the latest first. -/
  content : Raw := []
  /-- Where the next text is read or written. -/
  position : Nat := 0
  deriving Inhabited

/-! ## Contexts -/

/-- A variable. -/
structure Variable where
  /-- The value, if there is one. -/
  value : Option Raw := none
  /-- Whether programs see it. -/
  exported : Bool := false
  /-- Whether it cannot change. -/
  fixed : Bool := false
  deriving Inhabited

/-- Commands that are passed over until a construct ends. -/
inductive Skip where
  /-- None. -/
  | none
  /-- Those up to the end of so many loops. -/
  | leave (loops : Nat)
  /-- Those up to the next round of a loop, so many loops out. -/
  | again (loops : Nat)
  /-- Those up to the end of a function or script; whether a status was given. -/
  | function (given : Bool)
  deriving DecidableEq, Repr

/-- What a shell has of its own. -/
structure Context where
  /-- The name that the shell complains under. -/
  name : Raw
  /-- The number of the process that its subshells come from. -/
  process : Nat := 100
  /-- The processes of the shells that it was started from. -/
  ancestors : List Nat := []
  /-- The directory that the shell works in. -/
  directory : String
  /-- The positional parameters. -/
  args : List Raw := []
  /-- The variables. -/
  bindings : List (Raw × Variable) := []
  /-- Variables to be put back at the end of a function or command, the innermost first. -/
  hidden : List (List (Raw × Option Variable)) := []
  /-- The functions. -/
  functions : List (Raw × Command) := []
  /-- The abbreviations. -/
  aliases : List (Raw × Raw) := []
  /-- The programs that were found on the search path, with their paths. -/
  found : List (Raw × Raw) := []
  /-- The letters of the options that are on. -/
  options : Raw := []
  /-- The status of the last command. -/
  status : Nat := 0
  /-- The status of the last command whose output was taken, zero if there is none. -/
  outputStatus : Nat := 0
  /-- What is passed over. -/
  skip : Skip := .none
  /-- How many loops are open. -/
  loops : Nat := 0
  /-- How many functions are open. -/
  depth : Nat := 0
  /-- The command that a complaint is about. -/
  speaker : Option Raw := none
  /-- The line that a complaint is about. -/
  line : Nat := 1
  /-- The line that reading has come to. -/
  readLine : Nat := 1
  /-- What is done on signals, by their numbers; zero is the end of the shell. -/
  traps : List (Nat × Raw) := []
  /-- Signals that were ignored when the shell started and stay so. -/
  ignored : List Nat := []
  /-- The channels by the number of the stream. -/
  streams : List (Nat × Nat) := []
  /-- The place of the next argument that may hold options. -/
  optionIndex : Nat := 1
  /-- How far into the argument in front of it options have been read. -/
  optionOffset : Option Nat := none
  /-- The status to end with unless another one is given, inside of what is done on a signal. -/
  savedStatus : Option Nat := none
  /-- Whether a built-in command could not print. -/
  lost : Bool := false
  /-- The number of the last process that was not waited for. -/
  lastProcess : Option Nat := none
  /-- Whether this is not the first shell. -/
  isSub : Bool := false
  /-- The mask of permissions that new files lack. -/
  mask : Nat := 0x12

/-- A command that is not waited for. -/
structure Job where
  /-- The number of its process. -/
  process : Nat
  /-- The context that it starts with. -/
  context : Context
  /-- The command and its redirections. -/
  body : Command
  /-- How it ended, once it has. -/
  ended : Option Nat := none

/-- The state of a shell. -/
structure Shell extends Context where
  /-- The files. -/
  files : Files
  /-- The files that may be run. -/
  runnable : List Location := []
  /-- The channels that have been opened. -/
  channels : Array Channel := #[]
  /-- The texts in the script by number. -/
  documents : List (Nat × Word) := []
  /-- Commands that are not waited for. -/
  jobs : List Job := []
  /-- How many processes have been started. -/
  processes : Nat := 0
  /-- Signals that have not been seen yet, with the processes that they are sent to. -/
  signals : List (Nat × Nat) := []

/-- Why a shell stops. -/
inductive Stop where
  /-- It ends with its status. -/
  | ended
  /-- Another program has taken its place and has ended with the status. -/
  | replaced
  /-- A fault, which has been complained about. -/
  | fault
  /-- A signal. -/
  | signal (number : Nat)
  deriving DecidableEq, Repr

/-- A step of a shell. -/
abbrev Act (α : Type) := ExceptT Stop (StateM Shell) α

namespace Shell

/-! ## Streams -/

/-- The content of the file of a channel. -/
def fileContent (s : Shell) (location : Location) : Bytes :=
  match s.files.get? location with
  | some (.file bytes) => bytes
  | _ => []

/-- Opens a channel and gives its number. -/
def openChannel (kind : Channel.Kind) (isOutput : Bool) : Act Nat := modifyGet fun s =>
  (s.channels.size, { s with channels := s.channels.push { kind := kind, isOutput := isOutput } })

/-- The channel of a stream. -/
def channel? (s : Shell) (stream : Nat) : Option (Nat × Channel) :=
  (s.streams.lookup stream).bind fun n => (s.channels[n]?).map fun c => (n, c)

/-- Bytes written over others from a position on. -/
def overwrite (old : Bytes) (position : Nat) (new : Bytes) : Bytes :=
  let front := old.take position
  let gap := List.replicate (position - front.length) (0 : UInt8)
  front ++ gap ++ new ++ old.drop (position + new.length)

/-- Writes a text to a channel. -/
def writeChannel (number : Nat) (text : Raw) : Act Unit := modify fun s =>
  match s.channels[number]? with
  | none => s
  | some c =>
    match c.kind with
    | .nothing => s
    | .buffer =>
      { s with channels := s.channels.set! number { c with content := text.reverse ++ c.content } }
    | .file location atEnd =>
      match s.files.get? location with
      | some (.file old) =>
        let position := if atEnd then old.length else c.position
        { s with
          files := s.files.set location (.file (overwrite old position (bytesOfRaw text)))
          channels := s.channels.set! number { c with position := position + text.length } }
      | _ => s

/-- Writes a text to a stream; tells whether it can be written. -/
def write (stream : Nat) (text : Raw) : Act Bool := do
  match (← get).channel? stream with
  | none => return text.isEmpty
  | some (number, c) =>
    if c.isOutput then writeChannel number text
    return c.isOutput || text.isEmpty

/-- What can be read from a channel. -/
def unread (s : Shell) (c : Channel) : Raw :=
  match c.kind with
  | .nothing => []
  | .buffer => c.content.reverse.drop c.position
  | .file location _ => rawOfBytes ((s.fileContent location).drop c.position)

/-- What can be read from a stream. -/
def readable (s : Shell) (stream : Nat) : Raw :=
  match s.channel? stream with
  | some (_, c) => s.unread c
  | none => []

/-- Takes so many bytes from a stream. -/
def advance (stream count : Nat) : Act Unit := modify fun s =>
  match s.channel? stream with
  | some (number, c) =>
    { s with channels := s.channels.set! number { c with position := c.position + count } }
  | none => s

/-! ## Complaints -/

/-- Complains on standard error. -/
def complain (message : String) : Act Unit := do
  let s ← get
  let speaker := (s.speaker.map fun r => shown r ++ ": ").getD ""
  let text := shown s.name ++ ": " ++ toString s.line ++ ": " ++ speaker ++ message ++ "\n"
  let _ ← write 2 text.toList

/-- Sets the status. -/
def setStatus (status : Nat) : Act Unit := modify fun s => { s with status := status }

/-- The status of a fault. -/
def faultStatus : Nat := 2

/-- Stops with a complaint. -/
def fail {α : Type} (message : String) : Act α := do
  complain message
  setStatus faultStatus
  throw .fault

/-- What a step comes to when it may stop. -/
def attempt {α : Type} (step : Act α) : Act (Except Stop α) := fun s =>
  let (result, s) := step.run s
  (.ok result, s)

/-- Whether an option is on. -/
def isOn (s : Shell) (option : Char) : Bool := s.options.contains option

/-! ## Variables -/

/-- The variable of a name. -/
def binding? (s : Shell) (name : Raw) : Option Variable := s.bindings.lookup name

/-- The value of a variable. -/
def value? (s : Shell) (name : Raw) : Option Raw := (s.binding? name).bind (·.value)

/-- Named values with one of them set: in its place if it has one, else behind the others. -/
def put {α : Type} (named : List (Raw × α)) (name : Raw) (value : α) : List (Raw × α) :=
  match named with
  | [] => [(name, value)]
  | (n, old) :: rest =>
    if n == name then (n, value) :: rest else (n, old) :: put rest name value

/-- Named values in the order in which they are listed. The codes of a name are added up, the
first of them seventeen times, and divided by a number of slots; the remainders come in
order, and names with one remainder in the order in which they were set. -/
def inSlots {α : Type} (slots : Nat) (named : List (Raw × α)) : List (Raw × α) :=
  let slot (name : Raw) : Nat :=
    name.foldl (fun n c => n + c.toNat) (16 * (name.headD (Char.ofNat 0)).toNat) % slots
  named.mergeSort fun a b => slot a.1 ≤ slot b.1

/-- Sets a variable as it is. -/
def setVariable (name : Raw) (v : Variable) : Act Unit := modify fun s =>
  { s with bindings := put s.bindings name v }

/-- The complaint on a text that is no name. -/
def badName (name : Raw) : String := shown name ++ ": bad variable name"

/-- Gives a variable a value, or takes its value away. -/
def assign (name : Raw) (value : Option Raw) (exported : Bool) : Act Unit := do
  if ¬ isName name then fail (badName name)
  let s ← get
  let old := (s.binding? name).getD {}
  if old.fixed then fail (shown name ++ ": is read only")
  if name = "PATH".toList then modify fun s => { s with found := [] }
  if name = "OPTIND".toList then
    let value := value.getD []
    match wholeNumber? (some 10) value with
    | some n =>
      if n < 0 then fail ("Illegal number: " ++ shown value)
      modify fun s => { s with optionIndex := max 1 n.toNat, optionOffset := none }
    | none => fail ("Illegal number: " ++ shown value)
  setVariable name { old with value := value, exported := old.exported || exported || s.isOn 'a' }

/-- Gives a variable a value. -/
def setValue (name value : Raw) : Act Unit := assign name (some value) false

/-- Takes a variable away. -/
def unset (name : Raw) : Act Unit := do
  if ¬ isName name then fail (badName name)
  match (← get).binding? name with
  | none => return ()
  | some old =>
    if old.fixed then fail (shown name ++ ": is read only")
    modify fun s => { s with bindings := s.bindings.filter fun v => v.1 != name }

/-- Keeps a variable to be put back later. -/
def hide (name : Raw) : Act Unit := modify fun s =>
  match s.hidden with
  | [] => s
  | frame :: rest =>
    if frame.any (·.1 == name) then s
    else { s with hidden := ((name, s.binding? name) :: frame) :: rest }

/-- The name under which the options are kept to be put back. -/
def optionsName : Raw := ['-']

/-- Keeps the options to be put back later. -/
def hideOptions : Act Unit := modify fun s =>
  match s.hidden with
  | [] => s
  | frame :: rest =>
    if frame.any (·.1 == optionsName) then s
    else { s with hidden := ((optionsName, some { value := some s.options }) :: frame) :: rest }

/-- Opens a frame of variables that are put back later. -/
def openFrame : Act Unit := modify fun s => { s with hidden := [] :: s.hidden }

/-- Puts back the variables of the innermost frame. -/
def closeFrame : Act Unit := modify fun s =>
  match s.hidden with
  | [] => s
  | frame :: rest =>
    let back (bindings : List (Raw × Variable)) (kept : Raw × Option Variable) :=
      match kept.2 with
      | some v => put bindings kept.1 v
      | none => bindings.filter fun v => v.1 != kept.1
    let options := (frame.lookup optionsName).bind fun v => v.bind (·.value)
    { s with
      hidden := rest, options := options.getD s.options
      bindings := (frame.filter fun v => v.1 != optionsName).foldl back s.bindings }

/-- The characters that separate fields. -/
def separators (s : Shell) : Raw := (s.value? "IFS".toList).getD [' ', '\t', '\n']

/-- The variables that programs see. -/
def environment (s : Shell) : List (Raw × Raw) :=
  s.bindings.filterMap fun (name, v) =>
    if v.exported then v.value.map fun value => (name, value) else none

/-! ## Paths -/

/-- The path that a name leads to from the directory of the shell. -/
def pathOf (s : Shell) (name : Raw) : String :=
  if name = [] then "" else Path.join s.directory (textOfRaw name)

/-- The names in a directory, those of the directory itself and the one above included. Of the
directories of the host only those are known that hold nothing of a trial. -/
def namesIn (s : Shell) (directory : Raw) : Option (List Raw) :=
  let path := s.pathOf directory
  let dots : List Raw := [['.'], ['.', '.']]
  if systemDirectories.contains path then
    let below := systemDirectories.filter fun d => d ≠ path ∧ Path.parent? d = some path
    some (dots ++ below.map fun d => rawOf (Path.lastPiece d))
  else if s.files.isDirectory path then some (dots ++ (namesBelow s.files path).map rawOf)
  else none

/-- What is at the path that a name leads to. -/
def find (s : Shell) (name : Raw) : Found := lookUp s.files (s.pathOf name)

/-- Whether anything is at a path. -/
def isThere (s : Shell) (name : Raw) : Bool :=
  match s.find name with
  | .nothing _ => false
  | _ => true

/-- The text of a cause where what is missing is named in its own way. -/
def causeOr (missing : String) (cause : OsError) : String :=
  match cause with
  | .notFound | .notDirectory => missing
  | cause => causeText cause

end Shell

end NetTrial.Host
