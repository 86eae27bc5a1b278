import Bridgework.Text.Digit

/-!
# Shell scripts

The part of the language of shells in which commands are put together.

- `Word`, `Redirect`, `ShellScript` : words, redirections and commands
- `ShellScript.read?` : a script read from its text
-/

namespace Bridgework
namespace Testbed

/-! ## Scripts -/

inductive Redirection where
  | read
  | truncate
  | append
  /-- The stream becomes the same as another one. -/
  | duplicate
  deriving DecidableEq, Repr

mutual

inductive Piece where
  | text (s : String)
  /-- The number of the process. -/
  | processId
  /-- The status of the last command. -/
  | status
  | parameter (n : Nat) (quoted : Bool)
  | substitution (body : ShellScript) (quoted : Bool)

inductive Redirect where
  | mk (stream : Nat) (what : Redirection) (target : List Piece)

inductive ShellScript where
  | empty
  | simple (words : List (List Piece)) (redirects : List Redirect)
  | group (body : ShellScript) (redirects : List Redirect)
  /-- In a shell of its own. -/
  | subshell (body : ShellScript) (redirects : List Redirect)
  | sequence (first second : ShellScript)
  /-- The second one if the first one goes well. -/
  | both (first second : ShellScript)
  /-- The second one if the first one does not go well. -/
  | either (first second : ShellScript)
  /-- What the first one writes is read by the second one. -/
  | pipe (first second : ShellScript)

end

abbrev Word := List Piece

/-! ## Reading -/

def isSeparator (c : Char) : Bool := " \t\n;&|<>()".toList.contains c

def atWordEnd : List Char → Bool
  | [] => true
  | c :: _ => isSeparator c

/-- Leaves out blanks, lines that go on, and remarks. -/
def skipBlanks : List Char → List Char
  | ' ' :: s => skipBlanks s
  | '\t' :: s => skipBlanks s
  | '\\' :: '\n' :: s => skipBlanks s
  | s => s

def skipLines : Nat → List Char → List Char
  | 0, s => s
  | n + 1, s =>
    match skipBlanks s with
    | '\n' :: s => skipLines n s
    | '#' :: s => skipLines n (s.dropWhile (· != '\n'))
    | s => s

/-- A redirection's operator and the stream it is for. -/
def redirection? (s : List Char) : Option (Nat × Redirection × List Char) :=
  let (digits, rest) := s.span Char.isDigit
  let stream (usual : Nat) := (Text.natOfDecimal? digits).getD usual
  match rest with
  | '>' :: '>' :: r => some (stream 1, .append, r)
  | '>' :: '&' :: r => some (stream 1, .duplicate, r)
  | '>' :: r => some (stream 1, .truncate, r)
  | '<' :: r => some (stream 0, .read, r)
  | _ => none

namespace ShellScript

mutual

def dollar (quoted : Bool) : Nat → List Char → Option (Piece × List Char)
  | 0, _ => none
  | n + 1, s =>
    match s with
    | '$' :: s => some (.processId, s)
    | '?' :: s => some (.status, s)
    | '(' :: s => do
      let (body, s) ← commands n s
      match skipLines s.length s with
      | ')' :: s => some (.substitution body quoted, s)
      | _ => none
    | c :: r => if c.isDigit then some (.parameter (c.toNat - 48) quoted, r) else some (.text "$", s)
    | [] => some (.text "$", [])

def doubleQuoted : Nat → List Char → Option (Word × List Char)
  | 0, _ => none
  | n + 1, s =>
    match s with
    | [] => none
    | '"' :: s => some ([.text ""], s)
    | '\\' :: c :: s => do
      let (w, s) ← doubleQuoted n s
      if "$`\"\\".toList.contains c then some (.text (String.singleton c) :: w, s)
      else some (.text (String.ofList ['\\', c]) :: w, s)
    | '$' :: s => do
      let (p, s) ← dollar true n s
      let (w, s) ← doubleQuoted n s
      some (p :: w, s)
    | c :: s => do
      let (w, s) ← doubleQuoted n s
      some (.text (String.singleton c) :: w, s)

def word : Nat → List Char → Option (Word × List Char)
  | 0, _ => none
  | n + 1, s =>
    if atWordEnd s then some ([], s)
    else
      match s with
      -- Single quotes keep every character as it is.
      | '\'' :: r => do
        let (body, r) := r.span (· != '\'')
        let (w, s) ← if r.isEmpty then none else word n r.tail
        some (.text (String.ofList body) :: w, s)
      | '"' :: r => do
        let (v, s) ← doubleQuoted n r
        let (w, s) ← word n s
        some (v ++ w, s)
      | '\\' :: c :: r => do
        let (w, s) ← word n r
        some (.text (String.singleton c) :: w, s)
      | '$' :: r => do
        let (p, s) ← dollar false n r
        let (w, s) ← word n s
        some (p :: w, s)
      | c :: r => do
        let (w, s) ← word n r
        some (.text (String.singleton c) :: w, s)
      | [] => some ([], s)

def simpleParts : Nat → List Char → Option (List Word × List Redirect × List Char)
  | 0, _ => none
  | n + 1, s =>
    let s := skipBlanks s
    match redirection? s with
    | some (stream, what, r) => do
      let (target, s) ← word n (skipBlanks r)
      if target.isEmpty then none
      else
        let (ws, rs, s) ← simpleParts n s
        some (ws, .mk stream what target :: rs, s)
    | none =>
      if atWordEnd s then some ([], [], s)
      else do
        let (w, s) ← word n s
        let (ws, rs, s) ← simpleParts n s
        some (w :: ws, rs, s)

def command : Nat → List Char → Option (ShellScript × List Char)
  | 0, _ => none
  | n + 1, s =>
    match skipBlanks s with
    -- A brace opens a group only in front of a blank; else it belongs to a word.
    | '\x7b' :: c :: r =>
      if isSeparator c then do
        let (body, s) ← commands n (c :: r)
        match skipLines s.length s with
        | '\x7d' :: s =>
          let (ws, rs, s) ← simpleParts n s
          if ws.isEmpty then some (.group body rs, s) else none
        | _ => none
      else do
        let (ws, rs, s) ← simpleParts n ('\x7b' :: c :: r)
        some (.simple ws rs, s)
    | '(' :: r => do
      let (body, s) ← commands n r
      match skipLines s.length s with
      | ')' :: s =>
        let (ws, rs, s) ← simpleParts n s
        if ws.isEmpty then some (.subshell body rs, s) else none
      | _ => none
    | s => do
      let (ws, rs, s) ← simpleParts n s
      if ws.isEmpty && rs.isEmpty then none else some (.simple ws rs, s)

def pipeline : Nat → List Char → Option (ShellScript × List Char)
  | 0, _ => none
  | n + 1, s => do
    let (first, s) ← command n s
    match skipBlanks s with
    | '|' :: '|' :: r => some (first, '|' :: '|' :: r)
    | '|' :: r =>
      let (second, s) ← pipeline n (skipLines r.length r)
      some (.pipe first second, s)
    | s => some (first, s)

def conditional (first : ShellScript) : Nat → List Char → Option (ShellScript × List Char)
  | 0, _ => none
  | n + 1, s =>
    match s with
    | '&' :: '&' :: r => do
      let (second, s) ← pipeline n (skipLines r.length r)
      conditional (.both first second) n s
    | '|' :: '|' :: r => do
      let (second, s) ← pipeline n (skipLines r.length r)
      conditional (.either first second) n s
    | s => some (first, s)

def commands : Nat → List Char → Option (ShellScript × List Char)
  | 0, _ => none
  | n + 1, s =>
    match skipLines s.length s with
    | [] => some (.empty, [])
    -- A bracket that closes ends the list, and is read by whoever opened it.
    | ')' :: r => some (.empty, ')' :: r)
    | '\x7d' :: r => some (.empty, '\x7d' :: r)
    | s => do
      let (first, s) ← pipeline n s
      let (first, s) ← conditional first n s
      match s with
      | ';' :: r =>
        let (second, s) ← commands n r
        some (.sequence first second, s)
      | '\n' :: r =>
        let (second, s) ← commands n r
        some (.sequence first second, s)
      | s => some (first, s)

end

def read? (text : String) : Option ShellScript := do
  let s := text.toList
  match ← commands (4 * s.length + 8) s with
  | (script, []) => some script
  | _ => none

end ShellScript
end Testbed
end Bridgework
