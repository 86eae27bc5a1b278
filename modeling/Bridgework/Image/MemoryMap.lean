import Bridgework.Image.Resolver
import Bridgework.Text.Digit
import Bridgework.Text.Whitespace

/-!
# Memory maps

The regions of memory of a process, listed one to a line as `start-end permissions offset device inode
path`, and the libraries in them.

- `Region`, `MemoryMap.parse` : the regions of a listing; other lines are passed over
- `LoadRange`, `MemoryMap.libraryRanges` : the address range of each file below a directory
- `Resolver.ofRanges` : a resolver for the libraries of a package
-/

namespace Bridgework

structure Region where
  start : UInt64
  stop : UInt64
  /-- Where the region starts in its file. -/
  offset : UInt64
  path : Option String
  deriving DecidableEq, Repr

def Region.toJson (r : Region) : Json :=
  .object [("start", .nat r.start.toNat), ("end", .nat r.stop.toNat), ("offset", .nat r.offset.toNat),
    ("path", .orNull Json.text r.path)]

namespace MemoryMap

/-! ## Listings -/

/-- At least one character of a class, and the rest after all of them. -/
def many1? (p : Char → Bool) (s : List Char) : Option (List Char × List Char) :=
  match s.span p with
  | ([], _) => none
  | r => some r

def isHex (c : Char) : Bool := (Text.hexDigit? c).isSome

/-- The number of hexadecimal digits, if it is a word. -/
def word? (digits : List Char) : Option UInt64 :=
  (Text.natOfHex? digits).bind fun n => if n < UInt64.size then some (UInt64.ofNat n) else none

def blanks? (s : List Char) : Option (List Char) := (many1? Text.isBlank s).map Prod.snd

/-- Leaves out a field without blanks, and the blanks after it. -/
def field? (s : List Char) : Option (List Char) := do
  let (_, s) ← many1? (fun c => !Text.isBlank c) s
  blanks? s

def region? (line : List Char) : Option Region := do
  let (start, s) ← many1? isHex (Text.trimEnd line)
  match s with
  | '-' :: s =>
    let (stop, s) ← many1? isHex s
    let s ← blanks? s
    let s ← field? s
    let (offset, s) ← many1? isHex s
    let s ← blanks? s
    let s ← field? s
    let (_, s) ← many1? Text.isDecimal s
    let path := Text.trimChars s
    return ⟨← word? start, ← word? stop, ← word? offset,
      if path.isEmpty then none else some (String.ofList path)⟩
  | _ => none

def parse (text : String) : List Region := (Text.lines text.toList).filterMap region?

/-! ## Libraries -/

end MemoryMap

/-- The addresses of a library. -/
structure LoadRange where
  base : UInt64
  stop : UInt64
  deriving DecidableEq, Repr

namespace MemoryMap

def widen (r : Region) : Option LoadRange → LoadRange
  | none => ⟨r.start, r.stop⟩
  | some l => ⟨min l.base r.start, max l.stop r.stop⟩

def pathBelow? (root : String) (r : Region) : Option String := r.path.bind fun p => Path.below? p root

def libraryRanges (regions : List Region) (root : String) : SortedMap String LoadRange :=
  regions.foldl (fun m r =>
    match pathBelow? root r with
    | none => m
    | some path => m.alter path (widen r)) .empty

end MemoryMap

/-- A resolver for the libraries of a package at their ranges; a library without a list of exports
has none. -/
def Resolver.ofRanges (package : Package) (ranges : SortedMap String LoadRange)
    (exports : SortedMap String (List Export)) (mode : MatchMode) : Resolver :=
  .of (ranges.toList.map fun (path, range) =>
    .ofOffsets (.ofPath package path) range.base range.stop ((exports.get? path).getD [])) mode

end Bridgework
