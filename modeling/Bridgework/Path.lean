import Bridgework.Text.Whitespace

/-!
# Paths

Slash-separated paths as texts. Paths inside an install root are kept without a leading slash or
dot; prefixes of absolute paths are compared part by part.

- `Path.normalize` : the form in which a path below a root is stored
- `Path.stripPrefix?` : what remains of a path below a directory
- `Path.expandHome` : a leading tilde stands for the home directory
- `Path.append` : a path below a directory; an absolute one stands alone
-/

namespace Bridgework
namespace Path

/-! ## Relative paths -/

def unify (s : List Char) : List Char := s.map fun c => if c = '\\' then '/' else c

def dropDotSlashes : List Char → List Char
  | '.' :: '/' :: r => dropDotSlashes r
  | r => r

def dropSlashes (s : List Char) : List Char := s.dropWhile (· == '/')

/-- The stored form of a path below a root: with slashes, without `./` in front, then without
slashes in front. -/
def normalizeChars (s : List Char) : List Char := dropSlashes (dropDotSlashes (unify s))

def normalize (s : String) : String := String.ofList (normalizeChars s.toList)

def fileName (s : String) : String :=
  String.ofList ((Text.splitOnChar '/' s.toList).getLast?.getD [])

/-! ## Parts -/

inductive Part where
  /-- The slash at the start of an absolute path. -/
  | root
  /-- A dot at the start of a relative path. -/
  | here
  /-- A name between slashes. -/
  | name (text : List Char)
  deriving DecidableEq, Repr

/-- Whether a piece between slashes counts as a part: neither empty nor a dot. -/
def isName (piece : List Char) : Bool := !piece.isEmpty && piece != ['.']

/-- The start of a path, if it is a slash or a dot, and the pieces after it. -/
def pieces : List Char → Option Part × List (List Char)
  | '/' :: r => (some .root, Text.splitOnChar '/' r)
  | ['.'] => (some .here, [])
  | '.' :: '/' :: r => (some .here, Text.splitOnChar '/' ('/' :: r))
  | r => (none, Text.splitOnChar '/' r)

def parts (s : List Char) : List Part :=
  let (start, ps) := pieces s
  start.toList ++ (ps.filter isName).map .name

/-- What follows the first `n` names among pieces. -/
def dropNames : Nat → List (List Char) → List (List Char)
  | 0, ps => ps
  | _ + 1, [] => []
  | n + 1, p :: ps => if isName p then dropNames n ps else dropNames (n + 1) ps

/-- The pieces without those at the end that are no names. -/
def trimPiecesEnd (ps : List (List Char)) : List (List Char) :=
  (ps.reverse.dropWhile fun p => !isName p).reverse

def trimPieces (ps : List (List Char)) : List (List Char) :=
  trimPiecesEnd (ps.dropWhile fun p => !isName p)

def joinPieces (ps : List (List Char)) : List Char := List.intercalate ['/'] ps

/-- What remains of a path below a directory, as it is written but without slashes and dots at its
ends; `none` if the path does not lie there. Below the empty path everything lies, with its start. -/
def stripChars? (s dir : List Char) : Option (List Char) :=
  let (start, ps) := pieces s
  let wanted := parts dir
  if wanted.isPrefixOf (parts s) then
    match wanted, start with
    | [], none => some (joinPieces (trimPiecesEnd ps))
    | [], some .here => some ('.' :: joinPieces (trimPiecesEnd ps))
    | [], some _ => some ('/' :: joinPieces (trimPiecesEnd ps))
    | _ :: names, some _ => some (joinPieces (trimPieces (dropNames names.length ps)))
    | names, none => some (joinPieces (trimPieces (dropNames names.length ps)))
  else none

def stripPrefix? (s dir : String) : Option String :=
  (stripChars? s.toList dir.toList).map String.ofList

/-- The stored form of what remains of a path below a directory. -/
def below? (s dir : String) : Option String := (stripPrefix? s dir).map normalize

/-! ## Joining -/

/-- A path below a directory; an absolute path stands alone. -/
def append (dir s : String) : String :=
  match s.toList with
  | '/' :: _ => s
  | _ =>
    if dir.isEmpty || dir.toList.getLast? = some '/' then dir ++ s else dir ++ "/" ++ s

/-- Replaces a tilde that stands alone or before a slash by the home directory. -/
def expandHome (home s : String) : String :=
  match s.toList with
  | ['~'] => home
  | ['~', '/'] => home
  | '~' :: '/' :: r => append home (String.ofList r)
  | _ => s

end Path
end Bridgework
