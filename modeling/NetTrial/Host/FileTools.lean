import NetTrial.Host.Program
/-!
# Programs that change files

These programs list, make, remove, copy and rename files and directories, and say which files
may be run.
-/

namespace NetTrial.Host

open Text

/-- Runs a step for each name. A step that fails is complained about and the others go on. -/
def overNames (s : Scene) (names : List Raw) (complaint : Raw → OsError → String) (code : Nat)
    (step : Effect → Raw → Except OsError Effect) : Effect :=
  names.foldl (fun e name =>
    match step e name with
    | .ok e => e
    | .error cause => e.complain (complaint name cause) code) s.start

/-- A program that takes at least one name. -/
def needsNames (name missing : String) (s : Scene) (o : Options) (run : Effect) : Effect :=
  if o.operands.isEmpty then s.misuse name missing 1 else run

/-! ## Listing -/

/-- The names directly below a directory in order. -/
def namesBelow (files : Files) (path : String) : List String :=
  let names := (files.listing path).map fun p =>
    if endsWith "/" p then String.ofList p.toList.dropLast else p
  names.filter fun n => !n.toList.contains '/'

/-- The program `ls`. -/
def ls : Program := withOptions "ls" "1aAdpF" "" 2 fun s o =>
  let operands := if o.operands.isEmpty then [['.']] else o.operands
  let isFolder (r : Raw) : Bool := isPlace s.files (s.place r)
  let isThere (r : Raw) : Bool := isFolder r || s.files.pathExists (s.place r) || r == nullDevice
  let le (a b : Raw) : Bool := Files.textLe (textOfRaw a) (textOfRaw b)
  let lost := operands.filter fun r => !isThere r
  let listed (r : Raw) : Bool := isFolder r && !o.has 'd'
  let plain := (operands.filter fun r => isThere r && !listed r).mergeSort le
  let folders := (operands.filter listed).mergeSort le
  let titled (path : String) (shown : Raw) : Raw :=
    shown ++ (if (o.has 'p' || o.has 'F') && isPlace s.files path then ['/'] else []) ++ ['\n']
  let body (r : Raw) : Raw :=
    let names := (namesBelow s.files (s.place r)).filter fun n =>
      o.has 'a' || o.has 'A' || !startsWith "." n
    let dots : List String := if o.has 'a' then [".", ".."] else []
    (dots ++ names).flatMap fun n => titled (Path.join (s.place r) n) (rawOf n)
  let block (r : Raw) : Raw :=
    if operands.length = 1 then body r else r ++ [':', '\n'] ++ body r
  let blocks :=
    (if plain.isEmpty then [] else [plain.flatMap fun r => titled (s.place r) r]) ++
      folders.map block
  { s.start with
    stdout := (blocks.intersperse ['\n']).flatten
    stderr := String.join (lost.map fun r =>
      "ls: cannot access " ++ inQuotes r ++ ": No such file or directory\n")
    code := if lost.isEmpty then 0 else 2 }

/-! ## Making -/

/-- The program `mkdir`. -/
def mkdir : Program := withOptions "mkdir" "p" "m" 1 fun s o =>
  needsNames "mkdir" "missing operand" s o
    (overNames s o.operands
      (fun r cause => "mkdir: cannot create directory " ++ inQuotes r ++ ": " ++ causeText cause) 1
      fun e r =>
        if o.has 'p' then
          match e.files.makeDirectories (s.place r) with
          | (.ok (), files) => .ok { e with files := files }
          | (.error cause, _) => .error cause
        else (e.files.makeDirectory (s.place r)).map fun files => { e with files := files })

/-- The program `touch`, which only makes files that are missing. -/
def touch : Program := withOptions "touch" "acm" "dt" 1 fun s o =>
  needsNames "touch" "missing file operand" s o
    (overNames s o.operands
      (fun r cause => "touch: cannot touch " ++ inQuotes r ++ ": " ++ causeText cause) 1
      fun e r =>
        if r = nullDevice ∨ o.has 'c' ∨ isPlace e.files (s.place r) then .ok e
        else (e.files.append (s.place r) []).map fun files => { e with files := files })

/-- Whether a mode lets files be run, or stops it; none if it is no mode. -/
def runMode? (mode : Raw) : Option (Option Bool) :=
  if mode ≠ [] ∧ mode.length ≤ 4 ∧ mode.all fun c => (digit? 8 c).isSome then
    some (some ((mode.map fun c => c.toNat % 2).contains 1))
  else
    let people := mode.takeWhile "ugoa".toList.contains
    match mode.drop people.length with
    | sign :: rights =>
      if ['+', '-', '='].contains sign ∧ rights.all "rwxX".toList.contains then
        if rights.contains 'x' then some (some (sign != '-'))
        else some (if sign = '=' then some false else none)
      else none
    | [] => none

/-- The program `chmod`. -/
def chmod : Program := fun s =>
  match s.args with
  | [] => s.misuse "chmod" "missing operand" 1
  | [mode] => s.misuse "chmod" ("missing operand after " ++ inQuotes mode) 1
  | mode :: names =>
    match runMode? mode with
    | none => s.misuse "chmod" ("invalid mode: " ++ inQuotes mode) 1
    | some change =>
      overNames s names
        (fun r cause => "chmod: cannot access " ++ inQuotes r ++ ": " ++ causeText cause) 1
        fun e r => do
          let (location, _) ← e.files.locate (s.place r)
          let others := e.runnable.filter (· != location)
          return match change with
            | none => e
            | some true => { e with runnable := location :: others }
            | some false => { e with runnable := others }

/-! ## Removing -/

/-- The program `rmdir`. -/
def rmdir : Program := withOptions "rmdir" "" "" 1 fun s o =>
  needsNames "rmdir" "missing operand" s o
    (overNames s o.operands
      (fun r cause => "rmdir: failed to remove " ++ inQuotes r ++ ": " ++ causeText cause) 1
      fun e r => do
        match ← e.files.locate (s.place r) with
        | (_, .file _) => .error .notDirectory
        | _ =>
          if (e.files.listing (s.place r)).isEmpty then
            match e.files.removeTree (s.place r) with
            | (.ok (), files) => return { e with files := files }
            | (.error cause, _) => .error cause
          else .error .notEmpty)

/-- The program `rm`. -/
def rm : Program := withOptions "rm" "rRfd" "" 1 fun s o =>
  let whole := o.has 'r' || o.has 'R'
  if o.operands.isEmpty ∧ o.has 'f' then s.start
  else needsNames "rm" "missing operand" s o
    (overNames s o.operands
      (fun r cause => "rm: cannot remove " ++ inQuotes r ++ ": " ++ causeText cause) 1
      fun e r =>
        let path := s.place r
        if o.has 'f' ∧ ¬ e.files.pathExists path then .ok e
        else if e.files.isDirectory path ∧ whole then
          match e.files.removeTree path with
          | (.ok (), files) => .ok { e with files := files }
          | (.error cause, _) => .error cause
        else (e.files.removeFile path).map fun files => { e with files := files })

/-! ## Copying and renaming -/

/-- Where a file goes that is copied or renamed to a name. -/
def targetOf (s : Scene) (target source : Raw) : Raw :=
  if isPlace s.files (s.place target) then
    (if target.getLast? = some '/' then target else target ++ ['/']) ++ baseName source
  else target

/-- The programs `cp` and `mv` for files. -/
def transfer (name : String) (keep : Bool) : Program :=
  withOptions name "fprRa" "" 1 fun s o =>
    match o.operands.getLast?, o.operands.dropLast with
    | none, _ => s.misuse name "missing file operand" 1
    | some only, [] => s.misuse name ("missing destination file operand after " ++ inQuotes only) 1
    | some target, sources =>
      if 1 < sources.length ∧ ¬ isPlace s.files (s.place target) then
        s.misuse name ("target " ++ inQuotes target ++ ": " ++
          (if s.files.pathExists (s.place target) then "Not a directory"
            else "No such file or directory")) 1
      else
        overNames s sources
          (fun r cause => name ++ ": cannot stat " ++ inQuotes r ++ ": " ++ causeText cause) 1
          fun e r => do
            let text ← { s with files := e.files }.read r
            let goal := targetOf { s with files := e.files } target r
            let files ← s.written e.files goal text false
            if keep then return { e with files := files }
            else return { e with files := ← files.removeFile (s.place r) }

end NetTrial.Host
