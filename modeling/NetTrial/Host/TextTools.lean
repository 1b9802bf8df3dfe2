import NetTrial.Host.Program
import NetTrial.Host.Pattern
/-!
# Programs that read text

These programs read the files that they are given, or their input, and print parts of it,
count it, order it or change its characters.
-/

namespace NetTrial.Host

/-! ## Reading -/

/-- Reads the named texts one after the other; a name that cannot be read is complained about
and the others go on. A hyphen is the input, and so is no name at all. -/
def overTexts (s : Scene) (names : List Raw) (complaint : Raw → OsError → String)
    (use : Effect → Raw → Raw → Effect) : Effect :=
  let names := if names.isEmpty then [['-']] else names
  names.foldl (fun e name =>
    match if name = ['-'] then .ok s.input else s.read name with
    | .ok text => use e name text
    | .error cause => e.complain (complaint name cause) 1)
    { s.start with usedInput := names.contains ['-'] }

/-- The lines of a text, each with its end; the last one may have none. -/
def lines : Raw → List Raw
  | [] => []
  | c :: rest =>
    if c = '\n' then [c] :: lines rest
    else match lines rest with
      | [] => [[c]]
      | line :: more => (c :: line) :: more

/-- A line with an end. -/
def ended (line : Raw) : Raw := if line.getLast? = some '\n' then line else line ++ ['\n']

/-- A text that is filled with blanks in front up to a width. -/
def rightAligned (width : Nat) (r : Raw) : Raw := List.replicate (width - r.length) ' ' ++ r

/-! ## Copying -/

/-- The program `cat`. -/
def cat : Program := withOptions "cat" "nu" "" 1 fun s o =>
  let e := overTexts s o.operands
    (fun name cause => "cat: " ++ shown name ++ ": " ++ causeText cause) fun e _ text => e.print text
  let number (i : Nat) (line : Raw) : Raw := rightAligned 6 (decimal (i + 1)) ++ '\t' :: line
  if o.has 'n' then { e with stdout := ((lines e.stdout).mapIdx number).flatten } else e

/-- The program `tee`. -/
def tee : Program := withOptions "tee" "a" "" 1 fun s o =>
  o.operands.foldl (fun e name =>
    match s.written e.files name s.input (o.has 'a') with
    | .ok files => { e with files := files }
    | .error cause => e.complain ("tee: " ++ shown name ++ ": " ++ causeText cause) 1) { s.say s.input with usedInput := true }

/-! ## Parts -/

/-- The arguments with a number of lines behind a hyphen spelled as an option. -/
def withCount : List Raw → List Raw
  | ('-' :: d :: ds) :: rest =>
    if d.isDigit ∧ ds.all Char.isDigit then ['-', 'n'] :: (d :: ds) :: rest
    else ('-' :: d :: ds) :: rest
  | args => args

/-- The programs `head` and `tail`: which part of its lines or characters each text is cut
to. -/
def partOf (name : String) (part : List Raw → Raw → List Raw) : Program := fun s =>
  withOptions name "q" "nc" 1 (fun s o =>
    let byLines := !o.has 'c'
    let what := if byLines then "lines" else "bytes"
    let count := ((if byLines then o.argument? 'n' else o.argument? 'c')).getD ['1', '0']
    let (sign, digits) := count.span fun c => c == '-' || c == '+'
    if 1 < sign.length ∨ digits = [] ∨ ¬ digits.all Char.isDigit then
      s.refuse (name ++ ": invalid number of " ++ what ++ ": " ++ inQuotes count) 1
    else
      let cut (text : Raw) : Raw :=
        (part (if byLines then lines text else text.map ([·])) count).flatten
      overTexts s o.operands
        (fun file cause =>
          name ++ ": cannot open " ++ inQuotes file ++ " for reading: " ++ causeText cause)
        fun e file text =>
          if 1 < o.operands.length then
            let gap := if e.stdout.isEmpty then "" else "\n"
            e.print ((gap ++ "==> " ++ shown file ++ " <==\n").toList ++ cut text)
          else e.print (cut text)) { s with args := withCount s.args }

/-- The number that a count spells without its sign. -/
def countOf (count : Raw) : Nat :=
  (takeDigits 10 0 count.length (count.dropWhile fun c => c == '-' || c == '+')).1

/-- The program `head`. -/
def head : Program := partOf "head" fun items count =>
  if count.head? = some '-' then items.take (items.length - countOf count)
  else items.take (countOf count)

/-- The program `tail`. -/
def tail : Program := partOf "tail" fun items count =>
  if count.head? = some '+' then items.drop (countOf count - 1)
  else items.drop (items.length - countOf count)

/-! ## Counting and ordering -/

/-- How many words a text has; `inside` tells whether one is open. -/
def countWords (inside : Bool) : Raw → Nat
  | [] => 0
  | c :: rest =>
    if isSpace c then countWords false rest
    else (if inside then 0 else 1) + countWords true rest

/-- The program `wc`. -/
def wc : Program := withOptions "wc" "lwcm" "" 1 fun s o =>
  let all := o.letters.isEmpty
  let counts (text : Raw) : List Nat :=
    (if all || o.has 'l' then [text.count '\n'] else []) ++
      (if all || o.has 'w' then [countWords false text] else []) ++
      (if all || o.has 'c' || o.has 'm' then [text.length] else [])
  let found := o.operands.filterMap fun name =>
    if name = ['-'] then some s.input else (s.read name).toOption
  let total := (counts found.flatten)
  let columns := total.length
  let width :=
    if o.operands.isEmpty ∨ o.operands.contains ['-'] then (if columns ≤ 1 then 1 else 7)
    else if columns ≤ 1 ∧ o.operands.length ≤ 1 then 1
    else (decimal found.flatten.length).length
  let row (ns : List Nat) (title : Raw) : Raw :=
    joinRaw (ns.map fun n => rightAligned width (decimal (n : Nat))) ++
      (if title = [] then [] else ' ' :: title) ++ ['\n']
  let e := overTexts s o.operands
    (fun name cause => "wc: " ++ shown name ++ ": " ++ causeText cause)
    fun e name text => e.print (row (counts text) (if o.operands.isEmpty then [] else name))
  if 1 < o.operands.length then e.print (row total "total".toList) else e

/-- Lines without those that repeat the line in front of them. -/
def dropRepeats : List Raw → List Raw
  | a :: b :: rest => if a = b then dropRepeats (b :: rest) else a :: dropRepeats (b :: rest)
  | ls => ls

/-- The number that a line opens with. -/
def leadingNumber (line : Raw) : Int := ((numeral? (some 10) line).map (·.1)).getD 0

/-- The program `sort`. -/
def sort : Program := withOptions "sort" "nru" "" 2 fun s o =>
  let e := overTexts s o.operands
    (fun name cause => "sort: cannot read: " ++ shown name ++ ": " ++ causeText cause)
    fun e _ text => e.print ((lines text).flatMap ended)
  if e.code ≠ 0 then { e with stdout := [], code := 2 }
  else
    let le (a b : Raw) : Bool :=
      if o.has 'n' && leadingNumber a != leadingNumber b then leadingNumber a < leadingNumber b
      else Pattern.rawLe a b
    let sorted := (lines e.stdout).mergeSort fun a b => if o.has 'r' then le b a else le a b
    { e with stdout := (if o.has 'u' then dropRepeats sorted else sorted).flatten }

/-! ## Changing characters -/

/-- The characters that a set names: ranges and classes stand for all their members. -/
def setOf : (fuel : Nat) → Raw → Raw
  | 0, _ => []
  | _, [] => []
  | fuel + 1, '[' :: rest =>
    match Pattern.class? rest with
    | some (test, rest) => (((List.range 256).map Char.ofNat).filter test) ++ setOf fuel rest
    | none => single fuel '[' rest
  | fuel + 1, '\\' :: rest =>
    match Printf.Variant.builtIn.format.read rest with
    | (.text [c], rest) => single fuel c rest
    | (_, rest) => '\\' :: setOf fuel rest
  | fuel + 1, c :: rest => single fuel c rest
where
  /-- The members from a character on, which may open a range. -/
  single (fuel : Nat) (c : Char) : Raw → Raw
    | '-' :: d :: rest =>
      ((List.range (d.toNat + 1 - c.toNat)).map fun i => Char.ofNat (c.toNat + i)) ++ setOf fuel rest
    | rest => c :: setOf fuel rest

/-- A text in which some characters stand at most once in a row. -/
def squeezed (test : Char → Bool) : Raw → Raw
  | a :: b :: rest =>
    if a = b ∧ test a then squeezed test (b :: rest) else a :: squeezed test (b :: rest)
  | r => r

/-- The program `tr`. -/
def tr : Program := withOptions "tr" "cCds" "" 1 fun s o =>
  let set (r : Raw) : Raw := setOf r.length r
  let inverted := o.has 'c' || o.has 'C'
  let fromInput (r : Raw) : Effect := { s.say r with usedInput := true }
  match o.operands with
  | [] => s.misuse "tr" "missing operand" 1
  | [only] =>
    let members := set only
    let holds (c : Char) : Bool := members.contains c != inverted
    if o.has 'd' then fromInput (s.input.filter fun c => !holds c)
    else if o.has 's' then fromInput (squeezed holds s.input)
    else s.misuse "tr" ("missing operand after " ++ inQuotes only ++
      "\nTwo strings must be given when translating.") 1
  | [source, target] =>
    let members := set source
    let images := set target
    let holds (c : Char) : Bool := members.contains c != inverted
    let image (c : Char) : Char :=
      if ¬ holds c then c
      else if inverted then images.getLastD c
      else
        let i := members.length - 1 - (members.reverse.findIdx (· == c))
        images.getD i (images.getLastD c)
    if o.has 'd' ∧ o.has 's' then
      fromInput (squeezed images.contains (s.input.filter fun c => !holds c))
    else if o.has 'd' then
      s.misuse "tr" ("extra operand " ++ inQuotes target ++
        "\nOnly one string may be given when deleting without squeezing repeats.") 1
    else
      let changed := s.input.map image
      fromInput (if o.has 's' then squeezed images.contains changed else changed)
  | _ :: _ :: extra :: _ => s.misuse "tr" ("extra operand " ++ inQuotes extra) 1

end NetTrial.Host
