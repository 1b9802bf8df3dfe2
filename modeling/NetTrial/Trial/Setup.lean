import NetTrial.Tool.Launch
/-!
# The setup of a trial

Where trials work, where their fixtures are and which tools they run. A setting of the
environment overrides a default unless it is blank; blanks around it do not count.
-/

namespace NetTrial

/-- The tools of a trial. -/
structure Toolchain where
  /-- The compiler. -/
  compiler : ToolCommand
  /-- The runtime. -/
  runtime : ToolCommand
  deriving DecidableEq, Repr

/-- The setup of a trial. -/
structure Setup where
  /-- The directory that the cases work below. -/
  workRoot : String
  /-- The directory of the fixtures. -/
  fixtureRoot : String
  /-- The tools. -/
  tools : Toolchain
  /-- Whether a quantized case must be found inexact. -/
  strict : Bool := true
  deriving DecidableEq, Repr

namespace Setup

/-- The settings of an environment by name. -/
abbrev Environment := String → Option String

/-- A setting without the blanks around it; a blank one counts as absent. -/
def override? (env : Environment) (name : String) : Option String :=
  ((env name).map Text.trim).filter (· ≠ "")

/-- The program that is run when none is set. -/
def defaultTool : String := "ncc"

/-- The setup that an environment asks for, with its defaults below a directory. -/
def ofEnvironment (env : Environment) (home : String) : Setup where
  workRoot := (override? env "NCV_WORK_DIR").getD (Path.join home "target/ncv-work")
  fixtureRoot := Path.join home "fixtures"
  tools := {
    compiler := { program := (override? env "NCV_COMPILER").getD defaultTool }
    runtime := { program := (override? env "NCV_RUNTIME").getD defaultTool } }

/-- The setup with another directory to work below. -/
def withWorkRoot (s : Setup) (path : String) : Setup := { s with workRoot := path }

/-- The path of the fixtures. -/
def fixturePath (s : Setup) : String := Path.join s.fixtureRoot "conv2d_cases.json"

end Setup

end NetTrial
