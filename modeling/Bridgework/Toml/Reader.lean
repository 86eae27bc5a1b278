import Bridgework.Toml.Lexical

/-!
# Reading TOML

- `Toml.value?` : a value, with a bound on how deep arrays and tables in braces stand within each other
- `Toml.Builder` : the document so far, and the table that lines are added to
- `Toml.parse?` : a whole document
-/

namespace Bridgework
namespace Toml

/-! ## Values -/

/-- How deep arrays and tables in braces may stand within each other. -/
def maxNesting : Nat := 80

/-- A reader of one thing at the front of a text. -/
abbrev Reader (α : Type) := List Char → Option (α × List Char)

def items? (value : Reader Toml) : Nat → Reader (List Toml)
  | 0, _ => none
  | fuel + 1, s =>
    match skipSpace s false with
    | ']' :: rest => some ([], rest)
    | s => do
      let (v, s) ← value s
      match skipSpace s false with
      | ',' :: s =>
        let (vs, rest) ← items? value fuel s
        return (v :: vs, rest)
      | ']' :: rest => return ([v], rest)
      | _ => none

def keyValue? (value : Reader Toml) : Reader (List String × Toml) := fun s => do
  let (key, s) ← key? (maxKeyParts - 1) s
  let s ← take? '=' s
  let (v, s) ← value (skipBlanks s)
  return ((key, v), s)

def definePath? (m : Members) (origin : Origin) (key : List String) (v : Toml) : Option Members :=
  key.getLast?.bind fun last => define? m origin key.dropLast last v

/-- The members of a table in braces after the first, up to the closing brace. -/
def moreMembers? (value : Reader Toml) : Nat → Members → Reader Members
  | 0, _, _ => none
  | fuel + 1, m, s => do
    let ((key, v), s) ← keyValue? value s
    let m ← definePath? m .header key v
    match skipBlanks s with
    | ',' :: s => moreMembers? value fuel m s
    | '\x7d' :: rest => return (m, rest)
    | _ => none

def members? (value : Reader Toml) : Reader Members := fun s =>
  match skipBlanks s with
  | '\x7d' :: rest => some ([], rest)
  | s => moreMembers? value s.length [] s

/-- The text that a reader has taken. -/
def taken (s rest : List Char) : String := String.ofList (s.take (s.length - rest.length))

def numeric? (s : List Char) : Option (Toml × List Char) :=
  match moment? s with
  | some rest => some (.moment (taken s rest), rest)
  | none =>
    match float? s with
    | some rest => some (.float (taken s rest), rest)
    | none => (integer? s).map fun (n, rest) => (.integer n, rest)

/-- A value. The number bounds the nesting. -/
def value? : Nat → Reader Toml
  | nesting, s =>
    match s with
    | 't' :: 'r' :: 'u' :: 'e' :: rest => some (.bool true, rest)
    | 'f' :: 'a' :: 'l' :: 's' :: 'e' :: rest => some (.bool false, rest)
    | '[' :: s =>
      match nesting with
      | 0 => none
      | n + 1 => (items? (value? n) (s.length + 1) s).map fun (items, rest) => (.array items, rest)
    | '\x7b' :: s =>
      match nesting with
      | 0 => none
      | n + 1 => (members? (value? n) s).map fun (m, rest) => (.table .braces m, rest)
    | c :: _ =>
      if c == '"' || c == '\'' then (string? s).map fun (t, rest) => (.text t, rest)
      else numeric? s
    | [] => none

/-! ## Documents -/

structure Builder where
  /-- All tables but the current one. -/
  root : Members
  /-- Where the current table belongs; the document itself has the empty path. -/
  path : List String
  /-- Whether the current table is one of an array of tables. -/
  isItem : Bool
  /-- The current table. -/
  current : Members

namespace Builder

def start : Builder := ⟨[], [], false, []⟩

/-- Puts the current table into its place. -/
def finish? (b : Builder) : Option Members :=
  match b.path.getLast? with
  | none => some b.current
  | some key =>
    descend? false (fun _ m =>
      match b.isItem, m.get? key with
      | true, none => some (m.set key (.tables [b.current]))
      | true, some (.tables items) => some (m.set key (.tables (items ++ [b.current])))
      | false, none => some (m.set key (.table .header b.current))
      | _, some _ => none) b.path.dropLast .header b.root

/-- The members of the table at a path, through the last table of an array of tables. -/
def tableAt : Members → List String → Members
  | m, [] => m
  | m, key :: path =>
    match m.get? key with
    | some (.table _ inner) => tableAt inner path
    | some (.tables items) => tableAt (items.getLast?.getD []) path
    | _ => []

/-- The table that a header opens: a new one, or one that longer headers have implied. It is taken out
of the document until it is finished. -/
def openTable? (root : Members) (path : List String) : Option Builder := do
  let key ← path.getLast?
  let rest ← descend? false (fun _ m =>
    match m.get? key with
    | none => some m
    | some (.table .implied _) => some (m.erase key)
    | some _ => none) path.dropLast .header root
  return ⟨rest, path, false, tableAt root path⟩

def openItem? (root : Members) (path : List String) : Option Builder := do
  let key ← path.getLast?
  let root ← descend? false (fun _ m =>
    match m.get? key with
    | none => some m
    | some (.tables _) => some m
    | some _ => none) path.dropLast .header root
  return ⟨root, path, true, []⟩

def add? (b : Builder) (key : List String) (v : Toml) : Option Builder :=
  (definePath? b.current .header key v).map fun m => { b with current := m }

end Builder

/-- The path in a header, with the rest after the closing brackets. -/
def header? (s : List Char) : Option (List String × Bool × List Char) :=
  match s with
  | '[' :: '[' :: s => do
    let (path, s) ← key? (maxKeyParts - 1) s
    let s ← take? ']' s
    let s ← take? ']' s
    return (path, true, s)
  | '[' :: s => do
    let (path, s) ← key? (maxKeyParts - 1) s
    let s ← take? ']' s
    return (path, false, s)
  | _ => none

/-- One line, which starts with neither a blank nor a comment nor the end of a line. -/
def line? (b : Builder) (s : List Char) : Option (Builder × List Char) :=
  match s with
  | '[' :: _ => do
    let (path, isItem, s) ← header? s
    let s ← lineEnd? s
    let root ← b.finish?
    let b ← if isItem then Builder.openItem? root path else Builder.openTable? root path
    return (b, s)
  | s => do
    let ((key, v), s) ← keyValue? (value? maxNesting) s
    let s ← lineEnd? s
    let b ← b.add? key v
    return (b, s)

def lines? : Nat → Builder → List Char → Option Builder
  | 0, _, _ => none
  | fuel + 1, b, s =>
    match skipBlanks s with
    | [] => some b
    | '#' :: s => (lineEnd? ('#' :: s)).bind (lines? fuel b)
    | '\n' :: s => lines? fuel b s
    | '\r' :: '\n' :: s => lines? fuel b s
    | s => (line? b s).bind fun (b, s) => lines? fuel b s

/-- Reads a document; a byte order mark may come first. -/
def parse? (text : String) : Option Members :=
  let s := match text.toList with
    | '\uFEFF' :: s => s
    | s => s
  (lines? (s.length + 1) .start s).bind Builder.finish?

end Toml
end Bridgework
