import PlcAudit.Host.Program
import PlcAudit.Shell.Arithmetic
import PlcAudit.Shell.State
import PlcAudit.Shell.Utility

/-!
# Commands of a shell's own

What a shell does itself, without starting a program and without running another script: reading a
line, exporting, setting options, recording what to do on signals, and working out expressions.
-/

namespace PlcAudit.Shell

/-- The number of a signal, by its name or number. -/
def signal? (s : Octets) : Option Nat :=
  match toNat? s with
  | some n => some n
  | none =>
    let name := "SIG" ++ String.ofList s
    (Ending.signalNames.find? fun e => e.2 = name).map Prod.fst

/-- The signals that are not heeded unless a script asks for it. -/
def unheeded : List Nat := [0, 17, 18, 23, 28]

namespace Run

/-- Sets a variable. -/
def assign (name value : Octets) : Run Unit := modify fun s => s.assign name value false

/-- The names that a script may not do without: when one of them fails to be led somewhere, the
script ends. -/
def specialNames : List String :=
  [".", ":", "break", "continue", "eval", "exec", "exit", "export", "readonly", "return", "set",
    "shift", "times", "trap", "unset"]

/-- The utilities that a shell has of its own. -/
def ownUtilities : List (String × (Task → Done)) :=
  [("echo", Utility.echoEscaped), ("printf", Utility.printf), ("test", Utility.test),
    ("[", Utility.test), ("true", fun t => t.exit 0), ("false", fun t => t.exit 1),
    ("pwd", Utility.pwd)]

/-- The number of an argument that leaves something, such as a status. -/
def countArgument (name : String) (args : List Octets) (usual : Nat) : Run Nat := do
  match args with
  | [] => return usual
  | a :: _ =>
    let digits := ((a.dropWhile Char.isWhitespace).reverse.dropWhile Char.isWhitespace).reverse
    match toNat? digits with
    | some n => return n
    | none => abort (name.toList ++ ": Illegal number: ".toList ++ a)

/-- Reads a line of the input into variables. -/
def readLine (args : List Octets) : Run Unit := do
  let (os, names) := options ['p'] args
  let s ← get
  let raw := has os 'r'
  let (line, rest, ended) := split raw (s.content 0)
  modify fun s => s.leave 0 rest
  let s ← get
  fill s.separators names line
  finish (if ended then 0 else 1)
where
  /-- The first line, what follows it, and whether a line feed ends it. -/
  split (raw : Bool) : Octets → Octets × Octets × Bool
    | [] => ([], [], false)
    | '\\' :: c :: cs =>
      let (l, r, e) := split raw cs
      if raw then
        if c = '\n' then (['\\'], cs, true) else ('\\' :: c :: l, r, e)
      else if c = '\n' then (l, r, e) else (c :: l, r, e)
    | c :: cs =>
      if c = '\n' then ([], cs, true)
      else
        let (l, r, e) := split raw cs
        (c :: l, r, e)
  /-- Gives each variable a field, and the last one the rest. -/
  fill (separators : Octets) : List Octets → Octets → Run Unit
    | [], _ => pure ()
    | n :: ns, l =>
      let blank (c : Char) : Bool := c.isWhitespace && separators.contains c
      let l := l.dropWhile blank
      if ns.isEmpty then assign n (l.reverse.dropWhile blank).reverse
      else do
        assign n (l.takeWhile fun c => !separators.contains c)
        fill separators ns ((l.dropWhile fun c => !separators.contains c).drop 1)

/-- Says what a name stands for, and whether it stands for anything. -/
def describe (name : Octets) : Run Bool := do
  let s ← get
  let n := String.ofList name
  let (said, known) : Octets × Bool :=
    if s.functions.any (·.1 = name) then (" is a shell function".toList, true)
    else if specialNames.contains n then (" is a special shell builtin".toList, true)
    else if ownUtilities.any (·.1 = n) then (" is a shell builtin".toList, true)
    else
      match s.findProgram name with
      | some path => (" is ".toList ++ ofText path, true)
      | none => (": not found".toList, false)
  write (name ++ said ++ ['\n'])
  return known

/-- Exports variables, each of which may be given a value. -/
def exportAll (args : List Octets) : Run Unit := do
  for a in args do
    let name := a.takeWhile (· ≠ '=')
    modify fun s =>
      match a.dropWhile (· ≠ '=') with
      | _ :: value => s.assign name value true
      | [] =>
        match s.value? name with
        | some v => s.assign name v true
        | none => s
  finish 0

/-- Sets options and parameters. -/
def setOptions (args : List Octets) : Run Unit := do
  finish 0
  match args with
  | [] => return
  | a :: rest =>
    match a with
    | '-' :: '-' :: _ => modify fun s => { s with params := rest }
    | '-' :: letters => letter letters true; more rest
    | '+' :: letters => letter letters false; more rest
    | _ => modify fun s => { s with params := args }
where
  letter (letters : Octets) (on : Bool) : Run Unit := modify fun s =>
    { s with
      strict := if letters.contains 'e' then on else s.strict
      strictNames := if letters.contains 'u' then on else s.strictNames }
  more (rest : List Octets) : Run Unit :=
    if rest.isEmpty then pure () else modify fun s => { s with params := rest }

/-- Records what to do on signals. -/
def trap (args : List Octets) : Run Unit := do
  finish 0
  match args with
  | action :: names =>
    let key (n : Octets) : Octets := if n = ['0'] then "EXIT".toList else
      match signal? n with
      | some k => ofNat k
      | none => n
    modify fun s =>
      let others := s.traps.filter fun e => !(names.map key).contains e.1
      { s with
        traps := if action = ['-'] then others else names.map (fun n => (key n, action)) ++ others }
  | [] => return

/-- The value of an expression. -/
def arithmetic (expression : Octets) : Run Octets := do
  let s ← get
  let value (name : Octets) : Int := ((s.value? name).bind toInt?).getD 0
  match Arithmetic.evaluate value expression with
  | some n => return ofInt n
  | none =>
    let why := if expression.any fun c => c = '/' || c = '%' then "division by zero"
      else "expecting primary"
    abort (("arithmetic expression: " ++ why ++ ": \"").toList ++ expression ++ ['"'])

end Run

end PlcAudit.Shell
