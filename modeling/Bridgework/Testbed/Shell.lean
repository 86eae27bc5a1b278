import Bridgework.Command.System
import Bridgework.Testbed.Machine
import Bridgework.Testbed.ShellScript

/-!
# Running shell scripts

- `Shell` : the state of a shell
- `Shell.run` : a script on a machine
- `Machine.execute` : a program with arguments, the shell being one of them
-/

namespace Bridgework

namespace Command.Streams

def none : Streams := ⟨"", ""⟩

def append (a b : Streams) : Streams := ⟨a.out ++ b.out, a.err ++ b.err⟩

end Command.Streams

namespace Testbed

open Command (Exit Streams signalNames)

def processNumber : String := "4242"

structure Shell where
  machine : Machine
  /-- The name of the shell, and what it was given. -/
  parameters : List String
  /-- The status of the last command. -/
  status : Nat
  /-- How it has ended, if it has. -/
  ended : Option Exit

/-! ## Words -/

/-- Words that are complete, and the one that is being put together. -/
structure Fields where
  done : List String
  current : Option String

namespace Fields

def empty : Fields := ⟨[], .none⟩

def add (f : Fields) (s : String) : Fields := { f with current := some (f.current.getD "" ++ s) }

def close (f : Fields) : Fields := ⟨f.done ++ f.current.toList, .none⟩

/-- Adds text of which the blanks end words. -/
def addSplit (f : Fields) (s : String) : Fields :=
  s.toList.foldl
    (fun f c => if " \t\n".toList.contains c then f.close else f.add (String.singleton c)) f

end Fields

def withoutLastLines (s : String) : String :=
  String.ofList (s.toList.reverse.dropWhile (· == '\n')).reverse

namespace Shell

def name (sh : Shell) : String := sh.parameters.headD "sh"

def finish (sh : Shell) (e : Exit) : Shell := { sh with ended := some e }

def checkClock (sh : Shell) : Shell :=
  if sh.machine.isOver && sh.ended.isNone then sh.finish (.signal 9) else sh

def statusOf : Exit → Nat
  | .status n => n
  | .signal n => 128 + n

def exit (sh : Shell) : Exit := sh.ended.getD (.status sh.status)

def complain (sh : Shell) (text : String) (status : Nat) : Streams × Shell :=
  (⟨"", sh.name ++ ": 1: " ++ text ++ "\n"⟩, { sh with status })

def signal? (s : String) : Option Nat :=
  match Text.natOfDecimal? s.toList with
  | some n => some n
  | none => (signalNames.find? fun p => p.2 == s || "SIG" ++ p.2 == s).map (·.1)

/-- The signal that is sent to the shell itself. -/
def ownSignal? : List String → Option Nat
  | [pid] => if pid == processNumber then some 15 else none
  | ["-s", s, pid] => if pid == processNumber then signal? s else none
  | [s, pid] => if pid == processNumber && s.startsWith "-" then signal? (s.drop 1).toString else none
  | _ => none

/-- What the shell's own `echo` writes: escapes are replaced. -/
def echoed : List String → String
  | "-n" :: words => String.ofList (unescape (String.intercalate " " words).toList)
  | words => String.ofList (unescape (String.intercalate " " words).toList) ++ "\n"

/-! ## Redirections -/

inductive Sink where
  | out
  | err
  | file (path : String)
  | nowhere
  deriving DecidableEq, Repr

structure Plan where
  stdin : String
  out : Sink
  err : Sink

def sinkOf (path : String) : Sink := if path == "/dev/null" then .nowhere else .file path

/-- Applies one redirection. Files are made, or made empty, at once. -/
def redirect (sh : Shell) (plan : Plan) (stream : Nat) (what : Redirection) (target : String) :
    Except String (Plan × Shell) :=
  let aim (s : Sink) : Plan := if stream == 2 then { plan with err := s } else { plan with out := s }
  match what with
  | .duplicate =>
    match target with
    | "1" => .ok (aim plan.out, sh)
    | "2" => .ok (aim plan.err, sh)
    | "-" => .ok (aim .nowhere, sh)
    | _ => .error (target ++ ": Bad file descriptor")
  | .read =>
    if target == "/dev/null" then .ok ({ plan with stdin := "" }, sh)
    else
      match sh.machine.files.get? target with
      | some content => .ok ({ plan with stdin := content }, sh)
      | none => .error ("cannot open " ++ target ++ ": No such file")
  -- Writing creates the file at once, even if nothing comes.
  | _ =>
    if target == "/dev/null" then .ok (aim .nowhere, sh)
    else
      let old := if what = .append then (sh.machine.files.get? target).getD "" else ""
      match sh.machine.write? target old with
      | some machine => .ok (aim (sinkOf target), { sh with machine })
      | none =>
        if sh.machine.isDirectory target then .error ("cannot create " ++ target ++ ": Is a directory")
        else .error ("cannot create " ++ target ++ ": Directory nonexistent")

def deliver (sh : Shell) (written : Streams) (sink : Sink) (text : String) : Streams × Shell :=
  match sink with
  | .out => ({ written with out := written.out ++ text }, sh)
  | .err => ({ written with err := written.err ++ text }, sh)
  | .nowhere => (written, sh)
  | .file path =>
    let machine :=
      (sh.machine.write? path ((sh.machine.files.get? path).getD "" ++ text)).getD sh.machine
    (written, { sh with machine })

def deliverAll (sh : Shell) (plan : Plan) (s : Streams) : Streams × Shell :=
  let (written, sh) := sh.deliver .none plan.out s.out
  sh.deliver written plan.err s.err

/-! ## Commands -/

/-- A shell inside another one has ended. -/
def adopt (sh inner : Shell) : Shell :=
  let killed := if inner.machine.isOver then some (Exit.signal 9) else none
  { sh with machine := inner.machine, status := statusOf inner.exit, ended := killed }

mutual

def expand : Nat → Shell → Fields → Word → Fields × Streams × Shell
  | 0, sh, f, _ => (f, .none, sh)
  | _ + 1, sh, f, [] => (f, .none, sh)
  | n + 1, sh, f, p :: ps =>
    match p with
    | .text s => expand n sh (f.add s) ps
    | .processId => expand n sh (f.add processNumber) ps
    | .status => expand n sh (f.add (toString sh.status)) ps
    | .parameter k quoted =>
      let value := (sh.parameters[k]?).getD ""
      expand n sh (if quoted then f.add value else f.addSplit value) ps
    | .substitution body quoted =>
      let (s, inner) := run n body "" sh
      let value := withoutLastLines s.out
      let (f, t, sh) := expand n (sh.adopt inner) (if quoted then f.add value else f.addSplit value) ps
      (f, ⟨t.out, s.err ++ t.err⟩, sh)

def expandAll : Nat → Shell → List Word → List String × Streams × Shell
  | 0, sh, _ => ([], .none, sh)
  | _ + 1, sh, [] => ([], .none, sh)
  | n + 1, sh, w :: ws =>
    let (f, s, sh) := expand n sh .empty w
    let (rest, t, sh) := expandAll n sh ws
    (f.close.done ++ rest, s.append t, sh)

def redirectAll : Nat → Shell → Plan → List Redirect → Except String Plan × Shell
  | 0, sh, plan, _ => (.ok plan, sh)
  | _ + 1, sh, plan, [] => (.ok plan, sh)
  | n + 1, sh, plan, .mk stream what target :: rs =>
    let (words, _, sh) := expandAll n sh [target]
    match sh.redirect plan stream what (String.intercalate " " words) with
    | .ok (plan, sh) => redirectAll n sh plan rs
    | .error e => (.error e, sh)

def redirected : Nat → Shell → String → List Redirect → (Shell → String → Streams × Shell) →
    Streams × Shell
  | 0, sh, _, _, _ => (.none, sh)
  | n + 1, sh, stdin, rs, act =>
    match redirectAll n sh ⟨stdin, .out, .err⟩ rs with
    | (.error e, sh) => sh.complain e 2
    | (.ok plan, sh) =>
      let (s, sh) := act sh plan.stdin
      sh.deliverAll plan s

def invoke : Nat → Shell → String → List String → Streams × Shell
  | 0, sh, _, _ => (.none, sh)
  | _ + 1, sh, _, [] => (.none, { sh with status := 0 })
  | n + 1, sh, stdin, command :: args =>
    match command, args with
    | "exit", [] => (.none, sh.finish (.status sh.status))
    | "exit", k :: _ =>
      match Text.natOfDecimal? k.toList with
      | some k => (.none, sh.finish (.status (k % 256)))
      | none =>
        let (s, sh) := sh.complain ("exit: Illegal number: " ++ k) 2
        (s, sh.finish (.status 2))
    -- The shell ends as the command that replaces it does.
    | "exec", _ =>
      let (s, sh) := invoke n sh stdin args
      (s, sh.finish sh.exit)
    | "echo", _ => (⟨echoed args, ""⟩, { sh with status := 0 })
    | "kill", _ =>
      match ownSignal? args with
      | some 0 => (.none, { sh with status := 0 })
      | some k => (.none, sh.finish (.signal k))
      | none => sh.complain "kill: No such process" 1
    | _, _ =>
      match execute n sh.machine stdin command args with
      | some (s, e, machine) => (s, { sh with machine, status := statusOf e }.checkClock)
      | none => sh.complain (command ++ ": not found") 127

def execute : Nat → Machine → String → String → List String → Option (Streams × Exit × Machine)
  | 0, _, _, _, _ => none
  | n + 1, m, stdin, command, args =>
    let base := Machine.leaf command
    let known := command == base || command == "/bin/" ++ base || command == "/usr/bin/" ++ base
    if !known then none
    else if base == "sh" then
      match args with
      | "-c" :: text :: parameters =>
        -- Without parameters the shell itself is the first.
        let parameters := if parameters.isEmpty then [command] else parameters
        match ShellScript.read? text with
        | some script =>
          let (s, sh) := run n script stdin ⟨m, parameters, 0, none⟩
          some (s, sh.exit, sh.machine)
        | none =>
          some (⟨"", parameters.headD "sh" ++ ": 1: Syntax error: Unterminated quoted string\n"⟩, .status 2, m)
      | _ => some (.none, .status 0, m)
    else
      (runProgram? m stdin base args).map fun (o, m) => (⟨o.out, o.err⟩, .status o.status, m)

def run : Nat → ShellScript → String → Shell → Streams × Shell
  | 0, _, _, sh => (.none, sh)
  | n + 1, script, stdin, sh =>
    -- After the end nothing more runs.
    if sh.ended.isSome then (.none, sh)
    else
      match script with
      | .empty => (.none, sh)
      | .simple words rs =>
        let (args, s, sh) := expandAll n sh words
        let (t, sh) := redirected n sh stdin rs fun sh stdin => invoke n sh stdin args
        (s.append t, sh)
      | .group body rs => redirected n sh stdin rs fun sh stdin => run n body stdin sh
      -- Whatever happens to the variables inside stays inside.
      | .subshell body rs =>
        redirected n sh stdin rs fun sh stdin =>
          let (s, inner) := run n body stdin sh
          (s, sh.adopt inner)
      | .sequence a b =>
        let (s, sh) := run n a stdin sh
        let (t, sh) := run n b stdin sh
        (s.append t, sh)
      | .both a b =>
        let (s, sh) := run n a stdin sh
        if sh.status == 0 then
          let (t, sh) := run n b stdin sh
          (s.append t, sh)
        else (s, sh)
      | .either a b =>
        let (s, sh) := run n a stdin sh
        if sh.status == 0 then (s, sh)
        else
          let (t, sh) := run n b stdin sh
          (s.append t, sh)
      -- Both sides run on their own; what the first writes is what the second reads.
      | .pipe a b =>
        let (s, first) := run n a stdin sh
        let (t, second) := run n b s.out { sh with machine := first.machine }
        (⟨t.out, s.err ++ t.err⟩, sh.adopt second)

end

end Shell

def maxNesting : Nat := 100000

/-- A program with arguments and nothing to read: what it writes, how it ends, and the machine after it.
`none` means that there is no such program. -/
def Machine.execute (m : Machine) (command : String) (args : List String) :
    Option (Streams × Exit × Machine) := Shell.execute maxNesting m "" command args

end Testbed
end Bridgework
