import NetTrial.Tool.Options
import NetTrial.Files.Tree
/-!
# Launching tools

The harness asks for a tool by a request and is answered with an outcome, or with the cause
why the tool never ran. A launcher is a state machine: it sees the request and the files and
says the answer, the files afterwards and its next state. Every launch is put on the ledger,
whatever came of it.
-/

namespace NetTrial

open Number

/-- The tools of the pipeline. -/
inductive ToolKind where
  /-- The compiler under test. -/
  | compiler
  /-- The runtime that executes its artifacts. -/
  | runtime
  deriving DecidableEq, Repr

/-- The name of a tool. -/
def ToolKind.name : ToolKind → String
  | .compiler => "compiler"
  | .runtime => "runtime"

/-- What is run in one launch. -/
structure Request where
  /-- Which tool it is. -/
  tool : ToolKind
  /-- The program. -/
  program : String
  /-- All arguments. -/
  args : List String
  /-- The directory that the program runs in. -/
  directory : String
  deriving DecidableEq, Repr

/-- A request in one line. -/
def Request.commandLine (r : Request) : String := Text.joinWith " " (r.program :: r.args)

/-- A configured tool: a program and the arguments that precede those of every launch. -/
structure ToolCommand where
  /-- The program. -/
  program : String
  /-- The arguments that come first. -/
  leading : List String := []
  deriving DecidableEq, Repr

/-- The request for a launch with given arguments. -/
def ToolCommand.request (c : ToolCommand) (tool : ToolKind) (args : List String)
    (directory : String) : Request :=
  ⟨tool, c.program, c.leading ++ args, directory⟩

/-- How a program that ran came to its end. -/
structure Outcome where
  /-- The exit code; none when a signal ended the program. -/
  exitCode : Option Int
  /-- What was written to standard output. -/
  stdout : String
  /-- What was written to standard error. -/
  stderr : String
  deriving DecidableEq, Repr

namespace Outcome

/-- Whether the program ended well. -/
def success (o : Outcome) : Bool := o.exitCode == some 0

/-- The exit code as messages show it. -/
def status (o : Outcome) : String :=
  match o.exitCode with
  | none => "signal"
  | some code => (if code < 0 then "-" else "") ++ natText code.natAbs

end Outcome

/-- Why a program could not be started. -/
inductive SpawnFault where
  /-- A cause of the operating system. -/
  | os (cause : OsError)
  /-- Program, argument or directory holds the zero character. -/
  | zeroCharacter
  /-- Some other cause, by its text. -/
  | other (detail : String)
  deriving DecidableEq, Repr

/-- The text of a cause. -/
def SpawnFault.message : SpawnFault → String
  | .os cause => cause.message
  | .zeroCharacter => "nul byte found in provided data"
  | .other detail => detail

/-- Why a tool never ran. -/
inductive LaunchError where
  /-- No program is configured. -/
  | noProgram (tool : ToolKind)
  /-- The program could not be started. -/
  | spawn (program : String) (fault : SpawnFault)
  deriving DecidableEq, Repr

namespace LaunchError

/-- The stable code of a cause. -/
def reasonCode : LaunchError → String
  | .noProgram _ => "runtime_launch_program_empty"
  | .spawn .. => "runtime_launch_spawn_failed"

/-- The text of a cause. -/
def message : LaunchError → String
  | .noProgram tool => "no program configured for " ++ tool.name
  | .spawn program fault => "failed to launch '" ++ program ++ "': " ++ fault.message

end LaunchError

/-- What a launch gives. -/
abbrev LaunchResult := Except LaunchError Outcome

/-- What runs requests: a state machine over the files. -/
structure Launcher (σ : Type) where
  /-- Runs one request. -/
  launch : Request → Files → σ → LaunchResult × Files × σ

/-- A launch on record. -/
structure Event where
  /-- The tool. -/
  tool : ToolKind
  /-- All arguments. -/
  args : List String
  /-- The exit code; none when the tool never ran or a signal ended it. -/
  exitCode : Option Int
  /-- What the launch was for. -/
  note : String
  deriving DecidableEq, Repr

/-- The launches so far, the latest at the end. -/
abbrev Ledger := List Event

/-- The record of a launch. -/
def Event.of (r : Request) (result : LaunchResult) (note : String) : Event :=
  { tool := r.tool
    args := r.args
    exitCode := match result with
      | .ok outcome => outcome.exitCode
      | .error _ => none
    note := note }

/-- What the harness works on: the files, the state of the launcher and the ledger. -/
structure Bench (σ : Type) where
  /-- The files. -/
  files : Files
  /-- The state of the launcher. -/
  tools : σ
  /-- The launches so far. -/
  ledger : Ledger := []

/-- Runs a request and puts it on the ledger. -/
def Bench.launch {σ : Type} (l : Launcher σ) (r : Request) (note : String) (b : Bench σ) :
    LaunchResult × Bench σ :=
  let (result, files, tools) := l.launch r b.files b.tools
  (result, ⟨files, tools, b.ledger ++ [Event.of r result note]⟩)

end NetTrial
