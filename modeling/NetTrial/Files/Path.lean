import NetTrial.Text.Blank
/-!
# Paths

A path is kept as it is spelled: it is joined and shown without being tidied up. Its pieces
are what stands between slashes; a piece that is empty or a single dot changes nothing when
the path is followed.
-/

namespace NetTrial.Path

open Text

/-- The pieces between the slashes of a path, empty ones included. -/
def pieces (path : String) : List String := (splitOn '/' path.toList).map String.ofList

/-- The path that has given pieces. -/
def ofPieces (ps : List String) : String := joinWith "/" ps

/-- A path below another. A path that opens with a slash stands for itself; a name that is
empty leaves a trailing slash. -/
def join (base name : String) : String :=
  if startsWith "/" name then name
  else if base = "" ∨ endsWith "/" base then base ++ name
  else base ++ "/" ++ name

/-- Whether a piece changes nothing when it is followed. -/
def isIdle (piece : String) : Bool := piece == "" || piece == "."

/-- The pieces before the idle ones at the end; the first piece always stays. -/
def dropIdle (ps : List String) : List String :=
  match ps with
  | [] => []
  | p :: rest => p :: (rest.reverse.dropWhile isIdle).reverse

/-- The path one step up by spelling. The empty path and the root have none. -/
def parent? (path : String) : Option String :=
  let ps := dropIdle (pieces path)
  if ps = [""] then none
  else
    let up := dropIdle ps.dropLast
    some (if up = [""] then "/" else ofPieces up)

/-- The last piece of a path. -/
def lastPiece (path : String) : String := (pieces path).getLast?.getD ""

end NetTrial.Path
