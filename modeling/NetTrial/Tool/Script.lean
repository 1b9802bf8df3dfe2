import NetTrial.Tool.Launch
/-!
# Scripted tools

A rehearsal runs the pipeline without real tools: each launch is answered by the next
script of a list. A script may write the output that the launch is asked for, either given
bytes or the expected tensor with some of its bytes changed. All launches are kept.
-/

namespace NetTrial

open Text

/-- What a scripted tool writes. -/
inductive Script.Output where
  /-- Given bytes. -/
  | bytes (content : Bytes)
  /-- The expected tensor, bytes at some offsets xor-ed and some bytes dropped at its end. -/
  | expected (flips : List (Nat × UInt8)) (dropped : Nat)
  deriving DecidableEq, Repr

/-- The answer to one launch. -/
structure Script where
  /-- Why the tool never runs. -/
  refusal : Option (ToolKind → String → LaunchError) := none
  /-- What the tool writes. -/
  output : Option Script.Output := none
  /-- How the tool comes to its end. -/
  outcome : Outcome := ⟨some 0, "", ""⟩

/-- A rehearsal: the scripts to come and the launches so far. -/
structure Rehearsal where
  /-- The scripts to come. -/
  scripts : List Script := []
  /-- The launches so far, the latest at the end. -/
  calls : List Request := []

namespace Script

/-- Whether a text stands somewhere in another. -/
def occursIn (word s : String) : Bool := (after? word.toList s.toList).isSome

/-- Whether an argument is the path that a tool writes to. -/
def isTarget (tool : ToolKind) (argument : String) : Bool :=
  match tool with
  | .compiler => endsWith "model.kmodel" argument
  | .runtime => occursIn ".candidate." argument

/-- A text with every occurrence of a word, from left to right, replaced. The `skipped`
characters belong to an occurrence that was replaced already. -/
def replaceFrom (word replacement : List Char) : (skipped : Nat) → List Char → List Char
  | _, [] => []
  | skipped + 1, _ :: cs => replaceFrom word replacement skipped cs
  | 0, c :: cs =>
    if opensWith word (c :: cs) then
      replacement ++ replaceFrom word replacement (word.length - 1) cs
    else c :: replaceFrom word replacement 0 cs

/-- The path of the expected tensor beside that of a candidate. -/
def expectedBeside (candidate : String) : String :=
  String.ofList (replaceFrom ".candidate.".toList ".expect.".toList 0 candidate.toList)

/-- Bytes with those at some offsets xor-ed; an offset behind the end changes nothing. -/
def flip (flips : List (Nat × UInt8)) (bytes : Bytes) : Bytes :=
  flips.foldl (fun bs f => bs.modify f.1 (· ^^^ f.2)) bytes

/-- The bytes that a script writes to a path. -/
def Output.content (files : Files) (path : String) : Output → Option Bytes
  | .bytes content => some content
  | .expected flips dropped =>
    match files.read (expectedBeside path) with
    | .ok held => some ((flip flips held).take (held.length - dropped))
    | .error _ => none

/-- The files after a scripted launch. What cannot be written is left out. -/
def play (s : Script) (r : Request) (files : Files) : Files :=
  match s.output, r.args.find? (isTarget r.tool) with
  | some output, some path =>
    match output.content files path with
    | some content => (files.write path content).toOption.getD files
    | none => files
  | _, _ => files

/-- Answers launches by scripts. When none is left, a tool ends well and writes nothing. -/
def launcher : Launcher Rehearsal where
  launch r files state :=
    let script := state.scripts.head?.getD {}
    let state : Rehearsal := ⟨state.scripts.tail, state.calls ++ [r]⟩
    match script.refusal with
    | some refuse => (.error (refuse r.tool r.program), files, state)
    | none => (.ok script.outcome, script.play r files, state)

end Script

end NetTrial
