import Bridgework.Collection.SortedMap
import Bridgework.Text.Digit
import Bridgework.Text.Whitespace

/-!
# Machines that run commands

A file system, a clock, and a few programs.

- `Machine` : files and time
- `Output`, `runProgram?` : what a program writes, and the programs there are
- `formatted` : text after a pattern, with arguments
-/

namespace Bridgework
namespace Testbed

/-! ## Files and time -/

/-- Files by their paths, directories, and the time since the start. -/
structure Machine where
  files : SortedMap String String
  directories : List String
  /-- In milliseconds. -/
  clock : Nat
  /-- When everything is stopped. -/
  deadline : Option Nat

namespace Machine

def isOver (m : Machine) : Bool :=
  match m.deadline with
  | some d => d ≤ m.clock
  | none => false

def parent (path : String) : String := String.intercalate "/" (Text.split path '/').dropLast

def leaf (path : String) : String := (Text.split path '/').getLast?.getD ""

def isDirectory (m : Machine) (path : String) : Bool := m.directories.contains path

/-- Writes a file, if there is a directory for it. -/
def write? (m : Machine) (path content : String) : Option Machine :=
  if m.isDirectory (parent path) && !m.isDirectory path then
    some { m with files := m.files.insert path content }
  else none

/-- Makes a directory and those that it lies in; none of them may be a file. -/
def makeDirectories? (m : Machine) (path : String) : Option Machine :=
  let pieces := Text.split path '/'
  let ancestors := (List.range pieces.length).map fun n => String.intercalate "/" (pieces.take (n + 1))
  if ancestors.any m.files.contains then none
  else some { m with directories := m.directories ++ ancestors.filter fun d => !m.isDirectory d }

def namesIn (m : Machine) (path : String) : List String :=
  (m.files.keys.filter fun f => parent f == path).map leaf

end Machine

/-! ## Formats -/

def escaped? : Char → Option Char
  | 'n' => some '\n'
  | 't' => some '\t'
  | 'r' => some '\r'
  | '\\' => some '\\'
  | '"' => some '"'
  | 'a' => some '\x07'
  | 'b' => some '\x08'
  | 'f' => some '\x0c'
  | 'v' => some '\x0b'
  | _ => none

def unescape : List Char → List Char
  | '\\' :: c :: s =>
    match escaped? c with
    | some d => d :: unescape s
    | none => '\\' :: c :: unescape s
  | c :: s => c :: unescape s
  | [] => []

def padded (left : Bool) (width : Nat) (s : List Char) : List Char :=
  let blanks := List.replicate (width - s.length) ' '
  if left then s ++ blanks else blanks ++ s

def directive (letter : Char) (value : List Char) : List Char :=
  match letter with
  | 'b' => unescape value
  | 'c' => value.take 1
  | 's' => value
  | _ => if value.isEmpty then ['0'] else value

/-- One use of a pattern: the text, the arguments left over, and whether an argument was used. The number
bounds the characters that are read. -/
def formatOnce : Nat → List Char → List String → List Char × List String × Bool
  | 0, _, args => ([], args, false)
  | _ + 1, [], args => ([], args, false)
  | n + 1, '\\' :: c :: s, args =>
    let (r, rest, used) := formatOnce n s args
    match escaped? c with
    | some d => (d :: r, rest, used)
    | none => ('\\' :: c :: r, rest, used)
  | n + 1, '%' :: '%' :: s, args =>
    let (r, rest, used) := formatOnce n s args
    ('%' :: r, rest, used)
  | n + 1, '%' :: s, args =>
    let (flags, s) := s.span (· == '-')
    let (width, s) := s.span Char.isDigit
    match s with
    | [] => ([], args, false)
    | letter :: s =>
      let text := directive letter (args.headD "").toList
      -- The directive used an argument, even if none was left.
      let (r, rest, _) := formatOnce n s args.tail
      (padded (!flags.isEmpty) ((Text.natOfDecimal? width).getD 0) text ++ r, rest, true)
  | n + 1, c :: s, args =>
    let (r, rest, used) := formatOnce n s args
    (c :: r, rest, used)

/-- A pattern used again and again until no arguments are left. The number bounds the uses. -/
def formatAll (pattern : List Char) : Nat → List String → List Char
  | 0, args => (formatOnce pattern.length pattern args).1
  | n + 1, args =>
    let (text, rest, used) := formatOnce pattern.length pattern args
    if used && !rest.isEmpty then text ++ formatAll pattern n rest else text

def formatted (pattern : String) (args : List String) : String :=
  String.ofList (formatAll pattern.toList args.length args)

/-! ## Programs -/

structure Output where
  out : String
  err : String
  status : Nat

namespace Output

def ok (out : String) : Output := ⟨out, "", 0⟩

def failure (err : String) : Output := ⟨"", err ++ "\n", 1⟩

def usage (program problem : String) : Output :=
  failure (program ++ ": " ++ problem ++ "\nTry '" ++ program ++ " --help' for more information.")

end Output

/-- A file name as it stands in complaints: in quotes if a shell would not take it as it is. -/
def quotedName (name : String) : String :=
  let special (c : Char) := " \t\n!\"$&'()*;<=>?[\\^`|:".toList.contains c
  let starts := name.startsWith "#" || name.startsWith "~"
  if name.isEmpty || starts || name.toList.any special then "'" ++ name ++ "'" else name

def catenate (m : Machine) (stdin : String) : List String → Output
  | [] => .ok ""
  | path :: paths =>
    let rest := catenate m stdin paths
    let complain (text : String) : Output :=
      ⟨rest.out, "cat: " ++ quotedName path ++ ": " ++ text ++ "\n" ++ rest.err, 1⟩
    if path == "-" then { rest with out := stdin ++ rest.out }
    else if m.isDirectory path then complain "Is a directory"
    else
      match m.files.get? path with
      | some content => { rest with out := content ++ rest.out }
      | none => complain "No such file or directory"

def copy (m : Machine) : List String → Output × Machine
  | [] => (.usage "cp" "missing file operand", m)
  | [source] => (.usage "cp" ("missing destination file operand after '" ++ source ++ "'"), m)
  | source :: target :: _ =>
    let target := if m.isDirectory target then target ++ "/" ++ Machine.leaf source else target
    match m.files.get? source with
    | none =>
      if m.isDirectory source then
        (.failure ("cp: -r not specified; omitting directory '" ++ source ++ "'"), m)
      else (.failure ("cp: cannot stat '" ++ source ++ "': No such file or directory"), m)
    | some content =>
      match m.write? target content with
      | some m => (.ok "", m)
      | none =>
        (.failure ("cp: cannot create regular file '" ++ target ++ "': No such file or directory"), m)

def millis? (s : String) : Option Nat :=
  let (whole, rest) := s.toList.span Char.isDigit
  match rest with
  | [] => (Text.natOfDecimal? whole).map (· * 1000)
  | '.' :: fraction =>
    if fraction.all Char.isDigit && !(whole.isEmpty && fraction.isEmpty) then
      Text.natOfDecimal? (whole ++ (fraction ++ ['0', '0', '0']).take 3)
    else none
  | _ => none

def sleep (m : Machine) : List String → Output × Machine
  | [] => (.usage "sleep" "missing operand", m)
  | args =>
    match args.mapM millis? with
    | some times => (.ok "", { m with clock := times.foldl (· + ·) m.clock })
    | none =>
      let bad := (args.find? fun a => (millis? a).isNone).getD ""
      (.usage "sleep" ("invalid time interval '" ++ bad ++ "'"), m)

def baseName (path suffix : String) : String :=
  let name := Machine.leaf (String.ofList (path.toList.reverse.dropWhile (· == '/')).reverse)
  if name != suffix && suffix.toList.isSuffixOf name.toList then
    String.ofList (name.toList.take (name.length - suffix.length))
  else name

def test (m : Machine) : List String → Bool
  | ["-e", path] => m.files.contains path || m.isDirectory path
  | ["-f", path] => m.files.contains path
  | ["-r", path] => m.files.contains path || m.isDirectory path
  | ["-s", path] => ((m.files.get? path).getD "") != ""
  | ["-d", path] => m.isDirectory path
  | ["-n", s] => s != ""
  | ["-z", s] => s == ""
  | ["!", a, b] => !test m [a, b]
  | [s] => s != ""
  | [a, "=", b] => a == b
  | [a, "!=", b] => a != b
  | _ => false

def runProgram? (m : Machine) (stdin : String) (name : String) (args : List String) :
    Option (Output × Machine) :=
  match name with
  | "true" => some (.ok "", m)
  | ":" => some (.ok "", m)
  | "false" => some (⟨"", "", 1⟩, m)
  | "echo" =>
    match args with
    | "-n" :: rest => some (.ok (String.intercalate " " rest), m)
    | _ => some (.ok (String.intercalate " " args ++ "\n"), m)
  | "printf" =>
    match args with
    | [] => some (.usage "printf" "missing operand", m)
    | "--" :: pattern :: rest => some (.ok (formatted pattern rest), m)
    | pattern :: rest => some (.ok (formatted pattern rest), m)
  | "cat" => some (if args.isEmpty then .ok stdin else catenate m stdin args, m)
  | "cp" => some (copy m (args.filter fun a => !(a.startsWith "-")))
  | "sleep" => some (sleep m args)
  | "basename" =>
    match args with
    | [] => some (.usage "basename" "missing operand", m)
    | path :: rest => some (.ok (baseName path (rest.headD "") ++ "\n"), m)
  | "dirname" =>
    match args with
    | [] => some (.usage "dirname" "missing operand", m)
    | path :: _ => some (.ok (Machine.parent path ++ "\n"), m)
  | "test" => some (⟨"", "", if test m args then 0 else 1⟩, m)
  | "[" => some (⟨"", "", if test m args.dropLast then 0 else 1⟩, m)
  | "rm" =>
    some (.ok "", { m with files := m.files.filter fun path _ => !args.contains path })
  | "touch" => some (.ok "", args.foldl (fun m path => (m.write? path ((m.files.get? path).getD "")).getD m) m)
  | _ => none

end Testbed
end Bridgework
