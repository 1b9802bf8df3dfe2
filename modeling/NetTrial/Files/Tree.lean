import NetTrial.Files.Path
import NetTrial.Text.Utf8
/-!
# Files as a value

The files that the harness stages, the tools write and the comparison reads are one value: a
finite map from locations to nodes. A location is the list of names from the top down. Every
operation is a total function that says what changes or which cause the operating system
would name. The top is the current directory; it is where absolute paths start too.
-/

namespace NetTrial

open Text

/-- Why the operating system refuses a file operation. -/
inductive OsError where
  /-- Nothing is at the path. -/
  | notFound
  /-- Something is at the path already. -/
  | alreadyExists
  /-- The path goes through a file. -/
  | notDirectory
  /-- A directory is at the path. -/
  | isDirectory
  /-- The directory cannot be removed under this name. -/
  | invalidArgument
  /-- The directory is still in use. -/
  | busy
  /-- The directory cannot be removed through its child. -/
  | notEmpty
  /-- A name or the path is too long. -/
  | nameTooLong
  /-- The file may not be run. -/
  | permission
  /-- The path holds the zero character. -/
  | zeroCharacter
  /-- The file is not text. -/
  | notText
  deriving DecidableEq, Repr

/-- The text of a cause. -/
def OsError.message : OsError → String
  | .notFound => "No such file or directory (os error 2)"
  | .alreadyExists => "File exists (os error 17)"
  | .notDirectory => "Not a directory (os error 20)"
  | .isDirectory => "Is a directory (os error 21)"
  | .invalidArgument => "Invalid argument (os error 22)"
  | .busy => "Device or resource busy (os error 16)"
  | .notEmpty => "Directory not empty (os error 39)"
  | .nameTooLong => "File name too long (os error 36)"
  | .permission => "Permission denied (os error 13)"
  | .zeroCharacter => "file name contained an unexpected NUL byte"
  | .notText => "stream did not contain valid UTF-8"

/-- A place in the tree: the names from the top down. -/
abbrev Location := List String

/-- What is at a location. -/
inductive Node where
  /-- A file and its bytes. -/
  | file (bytes : Bytes)
  /-- A directory. -/
  | directory
  deriving DecidableEq, Repr

/-- All files and directories below the top. -/
structure Files where
  /-- The nodes by location, each location once. -/
  entries : List (Location × Node)
  deriving Repr

namespace Files

/-- No files. -/
def empty : Files := ⟨[]⟩

/-- The node at a location; the top is a directory. -/
def get? (fs : Files) (loc : Location) : Option Node :=
  if loc = [] then some .directory else (fs.entries.find? fun e => e.1 == loc).map Prod.snd

/-- The files with another node at a location. -/
def set (fs : Files) (loc : Location) (node : Node) : Files :=
  ⟨fs.entries.filter (fun e => e.1 != loc) ++ [(loc, node)]⟩

/-- The files without the nodes whose locations satisfy a test. -/
def drop (fs : Files) (test : Location → Bool) : Files := ⟨fs.entries.filter fun e => !test e.1⟩

/-- Whether a directory is at a location. -/
def isDirectoryAt (fs : Files) (loc : Location) : Bool := fs.get? loc == some .directory

/-- Whether a location lies below another. -/
def isBelow (top loc : Location) : Bool := top.isPrefixOf loc && loc != top

/-! ## Following paths -/

/-- The longest name and the longest path, in bytes. -/
def longestName : Nat := 255

/-- The longest path, in bytes. -/
def longestPath : Nat := 4095

/-- Refuses what is no path at all. -/
def checkPath (path : String) : Except OsError Unit :=
  if path.toList.contains (Char.ofNat 0) then .error .zeroCharacter
  else if path = "" then .error .notFound
  else if longestPath < path.utf8ByteSize then .error .nameTooLong
  else .ok ()

/-- Refuses a name that is too long. -/
def checkName (name : String) : Except OsError Unit :=
  if longestName < name.utf8ByteSize then .error .nameTooLong else .ok ()

/-- Follows pieces from a location; whatever a piece is followed from must be a directory. -/
def follow (fs : Files) (loc : Location) : List String → Except OsError Location
  | [] => .ok loc
  | piece :: rest =>
    if fs.isDirectoryAt loc then
      if Path.isIdle piece then follow fs loc rest
      else if piece = ".." then follow fs loc.dropLast rest
      else do
        checkName piece
        if (fs.get? (loc ++ [piece])).isSome then follow fs (loc ++ [piece]) rest
        else .error .notFound
    else .error .notDirectory

/-- The node that a path leads to, with its location. -/
def locate (fs : Files) (path : String) : Except OsError (Location × Node) := do
  checkPath path
  let loc ← fs.follow [] (Path.pieces path)
  match fs.get? loc with
  | some node => return (loc, node)
  | none => .error .notFound

/-- Where an operation that names a new or an old entry works. -/
inductive Target where
  /-- An entry of a directory, spelled with or without a trailing slash. -/
  | entry (directory : Location) (name : String) (slash : Bool)
  /-- The directory itself or the one above it, or the top. -/
  | itself (piece : String)
  deriving DecidableEq, Repr

/-- The entry that a path names. Everything before the last piece must lead to a directory. -/
def target (fs : Files) (path : String) : Except OsError Target := do
  checkPath path
  let named := ((Path.pieces path).reverse.dropWhile (· == "")).reverse
  match named.getLast? with
  | none => return .itself "/"
  | some last =>
    let directory ← fs.follow [] named.dropLast
    if ¬ fs.isDirectoryAt directory then .error .notDirectory
    if last = "." ∨ last = ".." then return .itself last
    checkName last
    return .entry directory last (Text.endsWith "/" path)

/-! ## Asking -/

/-- Whether anything is at a path. -/
def pathExists (fs : Files) (path : String) : Bool := (fs.locate path).toBool

/-- Whether a file is at a path. -/
def isFile (fs : Files) (path : String) : Bool :=
  match fs.locate path with
  | .ok (_, .file _) => true
  | _ => false

/-- Whether a directory is at a path. -/
def isDirectory (fs : Files) (path : String) : Bool :=
  match fs.locate path with
  | .ok (_, .directory) => true
  | _ => false

/-- The bytes of a file. -/
def read (fs : Files) (path : String) : Except OsError Bytes := do
  match ← fs.locate path with
  | (_, .file bytes) => return bytes
  | (_, .directory) => .error .isDirectory

/-- The characters of a file that is text. -/
def readChars (fs : Files) (path : String) : Except OsError (List Char) := do
  match decodeChars? (← fs.read path) with
  | some cs => return cs
  | none => .error .notText

/-- The text of a file. -/
def readText (fs : Files) (path : String) : Except OsError String :=
  return String.ofList (← fs.readChars path)

/-! ## Changing -/

/-- Where a file is written, and the file that is there already. -/
def writable (fs : Files) (path : String) : Except OsError (Location × Option Bytes) := do
  match ← fs.target path with
  | .itself _ => .error .isDirectory
  | .entry directory name slash =>
    if slash then .error .isDirectory
    else match fs.get? (directory ++ [name]) with
      | some .directory => .error .isDirectory
      | some (.file bytes) => return (directory ++ [name], some bytes)
      | none => return (directory ++ [name], none)

/-- Writes a file, over the one that is there. -/
def write (fs : Files) (path : String) (bytes : Bytes) : Except OsError Files := do
  let (loc, _) ← fs.writable path
  return fs.set loc (.file bytes)

/-- Writes bytes behind those of a file. -/
def append (fs : Files) (path : String) (bytes : Bytes) : Except OsError Files := do
  let (loc, old) ← fs.writable path
  return fs.set loc (.file (old.getD [] ++ bytes))

/-- Makes a directory. -/
def makeDirectory (fs : Files) (path : String) : Except OsError Files := do
  match ← fs.target path with
  | .itself _ => .error .alreadyExists
  | .entry directory name _ =>
    if (fs.get? (directory ++ [name])).isSome then .error .alreadyExists
    else return fs.set (directory ++ [name]) .directory

/-- Makes a directory unless one is there. -/
def ensureDirectory (fs : Files) (path : String) : Except OsError Files :=
  match fs.makeDirectory path with
  | .error .alreadyExists => if fs.isDirectory path then .ok fs else .error .alreadyExists
  | result => result

/-- Makes a directory and those above it that are missing, at most `fuel` of them. What was
made before a failure stays. -/
def makeDirectoriesFrom : (fuel : Nat) → Files → String → Except OsError Unit × Files
  | 0, fs, _ => (.ok (), fs)
  | fuel + 1, fs, path =>
    match path, Path.parent? path with
    | "", _ => (.ok (), fs)
    | _, none => (.ok (), fs)
    | path, some up =>
      match fs.ensureDirectory path with
      | .ok fs => (.ok (), fs)
      | .error .notFound =>
        match makeDirectoriesFrom fuel fs up with
        | (.error e, fs) => (.error e, fs)
        | (.ok (), fs) =>
          match fs.ensureDirectory path with
          | .ok fs => (.ok (), fs)
          | .error e => (.error e, fs)
      | .error e => (.error e, fs)

/-- Makes a directory and those above it that are missing. -/
def makeDirectories (fs : Files) (path : String) : Except OsError Unit × Files :=
  makeDirectoriesFrom ((Path.pieces path).length + 1) fs path

/-- Removes a file. -/
def removeFile (fs : Files) (path : String) : Except OsError Files := do
  match ← fs.target path with
  | .itself _ => .error .isDirectory
  | .entry directory name slash =>
    match fs.get? (directory ++ [name]) with
    | none => .error .notFound
    | some .directory => .error .isDirectory
    | some (.file _) =>
      if slash then .error .notDirectory
      else return fs.drop (· == directory ++ [name])

/-- Removes a directory and all below it. The content goes even when the directory itself
cannot be removed under its name. A path that led through the content leads nowhere after
that, and the directory stays without a complaint. -/
def removeTree (fs : Files) (path : String) : Except OsError Unit × Files :=
  match fs.locate path with
  | .error e => (.error e, fs)
  | .ok (_, .file _) => (.error .notDirectory, fs)
  | .ok (loc, .directory) =>
    let emptied := fs.drop (isBelow loc)
    match emptied.target path with
    | .ok (.entry ..) => (.ok (), emptied.drop (· == loc))
    | .ok (.itself piece) =>
      (.error (if piece = "." then .invalidArgument else if piece = ".." then .notEmpty
        else .busy), emptied)
    | .error .notFound => (.ok (), emptied)
    | .error e => (.error e, emptied)

/-! ## Listing -/

/-- The order of texts by their UTF-8 bytes, which is that of their code points. -/
def textLe (a b : String) : Bool := !(b < a)

/-- All paths below a path, relative to it and in order, directories with a slash at the
end. Nothing is listed below what is no directory. -/
def listing (fs : Files) (path : String) : List String :=
  match fs.locate path with
  | .ok (loc, .directory) =>
    let below := fs.entries.filter fun e => isBelow loc e.1
    let shown := below.map fun e =>
      Path.ofPieces (e.1.drop loc.length) ++ (if e.2 = .directory then "/" else "")
    shown.mergeSort textLe
  | _ => []

end Files

end NetTrial
