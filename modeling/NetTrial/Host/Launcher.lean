import NetTrial.Host.Interpreter
import NetTrial.Tool.Launch
/-!
# Launching programs of the host

A launch runs the named program in the directory of the request and captures what it
prints. What keeps a program from being started is a cause of the operating system; a blank
name is refused before that.
-/

namespace NetTrial.Host

open Text

/-- The longest name that the search path is asked for, in bytes. -/
def longestProgramName : Nat := 255

/-- Whether a text holds the zero character. -/
def holdsZero (s : String) : Bool := s.toList.contains (Char.ofNat 0)

/-- Why nothing can be run in a directory, unless it can. -/
def directoryFault? (files : Files) (path : String) : Option OsError :=
  match lookUp files path with
  | .directory => none
  | .nothing cause => some cause
  | _ => some .notDirectory

/-- The program that a name leads to, or why there is none: nothing in the tree is a program.
A name with a slash is a path; the current directory and the one above it are found on every
search path. -/
def programAt (files : Files) (directory program : String) : Except OsError String :=
  if program.toList.contains '/' then
    match lookUp files (Path.join directory program) with
    | .program name => .ok name
    | .nothing cause => .error cause
    | _ => .error .permission
  else if isProgram program then .ok program
  else if program = "." ∨ program = ".." then .error .permission
  else if longestProgramName < program.utf8ByteSize then .error .nameTooLong
  else .error .notFound

/-- The program of a request, or why it cannot be started. The directory is entered before the
program is looked for. -/
def startOf (files : Files) (r : Request) : Except SpawnFault String :=
  if holdsZero r.program || r.args.any holdsZero || holdsZero r.directory then .error .zeroCharacter
  else
    match directoryFault? files r.directory with
    | some cause => .error (.os cause)
    | none => (programAt files r.directory r.program).mapError .os

/-- The shell that a program is started from: it reads nothing and keeps what is printed. -/
def firstShell (files : Files) (directory : String) : Shell :=
  let home : List (Raw × Raw) :=
    [("HOME".toList, "/root".toList), ("PATH".toList, Interpreter.hostPath), ("PWD".toList, ['/'])]
  { name := "sh".toList
    directory := directory
    bindings := Interpreter.firstVariables home
    streams := [(0, 0), (1, 1), (2, 2)]
    files := files
    channels := #[{ isOutput := false }, { kind := .buffer }, { kind := .buffer }] }

/-- What a program that is started does: how it ends, what it prints and the files after it. -/
def runRequest (files : Files) (r : Request) (program : String) : Outcome × Files :=
  let (ending, s) :=
    (Interpreter.perform Interpreter.enough
        (.start (.program program) ((r.program :: r.args).map rawOf))).run
      |>.run (firstShell files r.directory)
  let printed (channel : Nat) : String :=
    textOfRaw ((((s.channels[channel]?).map (·.content)).getD []).reverse)
  let code : Option Int := match ending with
    | .ok (.exited code) => some (code : Nat)
    | .ok (.killed _) => none
    | .error _ => some 0
  (⟨code, printed 1, printed 2⟩, s.files)

/-- Launches programs of the host. -/
def launcher : Launcher Unit where
  launch r files _ :=
    if isBlankText r.program then (.error (.noProgram r.tool), files, ())
    else match startOf files r with
      | .error fault => (.error (.spawn r.program fault), files, ())
      | .ok program =>
        let (outcome, files) := runRequest files r program
        (.ok outcome, files, ())

end NetTrial.Host
