import NetTrial.Host.FileTools
import NetTrial.Host.TextTools
/-!
# The programs by name

The host finds a program by its name on the search path or by its path. Some of the names
belong to programs that start others and are known to the shell alone.
-/

namespace NetTrial.Host

open Text

/-- The programs that run on their own. -/
def programs : List (String × Program) :=
  [ ("basename", basename), ("cat", cat), ("chmod", chmod), ("cp", transfer "cp" true),
    ("dirname", dirname), ("echo", echo), ("false", fun s => { s.start with code := 1 }),
    ("head", head), ("ls", ls), ("mkdir", mkdir), ("mv", transfer "mv" false),
    ("printf", formatted), ("rm", rm), ("rmdir", rmdir), ("seq", seq), ("sleep", sleep),
    ("sort", sort), ("tail", tail), ("tee", tee), ("touch", touch), ("tr", tr),
    ("true", Scene.start), ("wc", wc) ]

/-- The program of a name. -/
def program? (name : String) : Option Program := programs.lookup name

/-- The names under which the host has its shell. -/
def shellNames : List String := ["sh", "dash"]

/-- The names of programs that are known to the shell alone. -/
def starterNames : List String := ["[", "env", "kill", "pwd", "test"]

/-- Whether a name is that of a program. -/
def isProgram (name : String) : Bool :=
  (program? name).isSome || shellNames.contains name || starterNames.contains name

/-! ## Paths of the host -/

/-- What is at a path. -/
inductive Found where
  /-- Nothing. -/
  | nothing (cause : OsError)
  /-- A directory. -/
  | directory
  /-- A program of the host. -/
  | program (name : String)
  /-- A device of the host. -/
  | device
  /-- A file. -/
  | file (location : Location) (bytes : Bytes)

/-- The device files that scripts can name. -/
def devices : List String := ["/dev/null", "/dev/stdin", "/dev/stdout", "/dev/stderr"]

/-- What is at an absolute path without idle pieces. -/
def foundAt (files : Files) (location : Location) : Found :=
  let path := "/" ++ Path.ofPieces location
  let below := "/" ++ Path.ofPieces location.dropLast
  if isPlace files path then .directory
  else if devices.contains path then .device
  else match location.getLast?.filter isProgram, files.get? location with
    | some name, none =>
      if programDirectories.contains below then .program name else .nothing .notFound
    | _, some (.file bytes) => .file location bytes
    | _, some .directory => .directory
    | none, none => .nothing .notFound

/-- Follows the pieces of an absolute path; whatever a piece is followed from must be a
directory. -/
def followPieces (files : Files) (location : Location) : List String → Found
  | [] => foundAt files location
  | piece :: rest =>
    match foundAt files location with
    | .directory =>
      if Path.isIdle piece then followPieces files location rest
      else if piece = ".." then followPieces files location.dropLast rest
      else if Files.longestName < piece.utf8ByteSize then .nothing .nameTooLong
      else followPieces files (location ++ [piece]) rest
    | .nothing cause => .nothing cause
    | _ => .nothing .notDirectory

/-- What is at a path. -/
def lookUp (files : Files) (path : String) : Found :=
  match Files.checkPath path with
  | .error cause => .nothing cause
  | .ok () =>
    if startsWith "/" path then followPieces files [] (Path.pieces path)
    else match files.locate path with
      | .error cause => .nothing cause
      | .ok (_, .directory) => .directory
      | .ok (location, .file bytes) => .file location bytes

end NetTrial.Host
