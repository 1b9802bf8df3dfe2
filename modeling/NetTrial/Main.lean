import NetTrial.Host.Launcher
import NetTrial.Trial.Bundled
import NetTrial.Trial.Program
import Std.Time.DateTime.Timestamp
/-!
# The command line

The first argument names the command: `stage_reference_case`, which takes the id of a
fixture if only that one is to be staged, or `run_verification_suite`. The environment is
asked for the directory to work in, the tools and the path of the journal. The command runs
on files that are a value; what they hold afterwards is then written below the current
directory, or below the root if the directory to work in is given from there.
-/

namespace NetTrial.CommandLine

/-- The names that the environment is asked for. -/
def settings : List String := ["NCV_WORK_DIR", "NCV_COMPILER", "NCV_RUNTIME", "NCV_HARNESS_LOG_PATH"]

/-- The command that some arguments ask for. -/
def command? : List String → Option HarnessCommand
  | name :: rest =>
    let commands : List HarnessCommand := [.stage rest.head?, .verify]
    commands.find? fun c => c.name == name
  | [] => none

/-- The usage. -/
def usage : String := "usage: stage_reference_case [id] | run_verification_suite"

/-- The bytes of a file of the system, none if it cannot be read. -/
def readFile? (path : String) : IO (Option Text.Bytes) := do
  try return some (← IO.FS.readBinFile path).toList
  catch _ => return none

/-- Writes the nodes of a tree below a directory of the system. -/
def writeTree (top : String) (files : Files) : IO Unit := do
  for (location, node) in files.entries do
    let path := Path.join top (Path.ofPieces location)
    match node with
    | .directory => IO.FS.createDirAll path
    | .file bytes => IO.FS.writeBinFile path ⟨bytes.toArray⟩

/-- Removes the areas of fixtures that a tree replaces. -/
def removeAreas (top : String) (s : Setup) (files : Files) : IO Unit := do
  for f in Fixture.bundled do
    let area := Path.join s.workRoot f.id
    if files.isDirectory area then
      try IO.FS.removeDirAll (Path.join top area) catch _ => pure ()

/-- Runs a command on the system and gives its exit code. -/
def run (c : HarnessCommand) : IO UInt32 := do
  let values ← settings.mapM fun name => do return (name, ← IO.getEnv name)
  let env : Setup.Environment := fun name => (values.lookup name).join
  let setup := Setup.ofEnvironment env "."
  let top := if Text.startsWith "/" setup.workRoot then "/" else "."
  let time := (← Std.Time.Timestamp.now).toMillisecondsSinceUnixEpoch.val.toNat
  let journal := Journal.ofPaths none (env "NCV_HARNESS_LOG_PATH") time
  let kept ← match journal.path with
    | some path => pure (path, ← readFile? path)
    | none => pure ("", none)
  let files : Files := match kept with
    | (path, some bytes) =>
      let files := match Path.parent? path with
        | some up => (Files.empty.makeDirectories up).2
        | none => .empty
      (files.write path bytes).toOption.getD files
    | _ => .empty
  let (transcript, files) := c.run setup journal Host.launcher () Fixture.bundled files
  removeAreas top setup files
  writeTree top files
  IO.print transcript.stdout
  IO.eprint transcript.stderr
  return transcript.exitCode.toUInt32

end NetTrial.CommandLine

/-- Runs the command that the arguments name. -/
def main (args : List String) : IO UInt32 := do
  match NetTrial.CommandLine.command? args with
  | some c => NetTrial.CommandLine.run c
  | none =>
    IO.eprintln NetTrial.CommandLine.usage
    return 2
