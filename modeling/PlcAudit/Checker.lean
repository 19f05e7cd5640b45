import PlcAudit.Command.Words
import PlcAudit.Failure
import PlcAudit.Host.Program
import PlcAudit.Request
import PlcAudit.Text.Blank

/-!
# Checkers

A checker is an engine that is a program of the host.  It is looked for once, when it is first
needed, and what was found then, or that nothing was, is kept.  Each analysis starts the program,
gives it the request, and takes what it writes.

* `Checker`: a command and what it was found to be, and `Checker.ofCommandLine` that of a line.
* `Checker.resolve`: looks for the program of a command.
* `Checker.prepare`, `Checker.analyze`: the two calls of an engine.
-/

namespace PlcAudit

/-- A command, and, once it was needed, the path of its program or why there is none. -/
structure Checker where
  command : List String
  resolved : Option (Except EngineFault String) := none
  deriving Repr

namespace Checker

/-- The checker of a command that is written as one line, or `none` when a quote is not closed. -/
def ofCommandLine (line : String) : Option Checker :=
  (Command.splitWords line).map fun ws => { command := ws }

/-- What is said of a command without a program. -/
def noCommand : EngineFault :=
  .unavailable
    "no engine command configured (set [engine] command in plcguard.toml or pass --engine)"

/-- What is said of a program that is not found. -/
def notFound (program : String) : EngineFault :=
  .unavailable ("engine executable '" ++ program ++ "' was not found")

/-- Looks for the program of a command. -/
def resolve (h : Host) (command : List String) : Except EngineFault String :=
  match command.head? with
  | none => .error noCommand
  | some program =>
    if Text.isBlankText program then .error noCommand
    else
      match h.findProgram program with
      | some path => .ok path
      | none => .error (notFound program)

/-- A program is missing for one kind of reason only. -/
theorem exists_unavailable_of_resolve {h : Host} {command : List String} {fault : EngineFault}
    (hfault : resolve h command = .error fault) : ∃ m, fault = .unavailable m := by
  unfold resolve at hfault
  split at hfault
  · cases hfault
    exact ⟨_, rfl⟩
  · split at hfault
    · cases hfault
      exact ⟨_, rfl⟩
    · split at hfault
      · cases hfault
      · cases hfault
        exact ⟨_, rfl⟩

/-- The path of the program, looked for if it was not before, and the checker that knows it. -/
def program (c : Checker) (h : Host) : Checker × Except EngineFault String :=
  match c.resolved with
  | some r => (c, r)
  | none =>
    let r := resolve h c.command
    ({ c with resolved := some r }, r)

/-- Makes the checker ready. -/
def prepare (c : Checker) (h : Host) : Checker × Except EngineFault Unit :=
  let (c, r) := c.program h
  (c, r.map fun _ => ())

/-- What a program that has ended means.  One that failed says why on its diagnostics, and when it
says nothing there, how it ended. -/
def resultOf (done : Completion) : Except EngineFault String :=
  if done.ending.isSuccess then .ok (Text.ofBytes done.output)
  else
    let detail := Text.trim (Text.ofBytes done.diagnostics)
    let described := "engine exited with " ++ done.ending.message
    .error (.threw (if detail.isEmpty then described else detail))

/-- Runs the program on a request, and gives the files after it. -/
def runProgram (launch : Launcher) (h : Host) (path : String) (arguments : List String)
    (request : Request) : FileTree × Except EngineFault String :=
  match launch h path arguments (Text.bytesOf request.wire) with
  | .notStarted fault =>
    (h.tree, .error (.threw ("failed to start " ++ path ++ ": " ++ fault.message)))
  | .notAwaited fault tree => (tree, .error (.threw ("engine did not finish: " ++ fault.message)))
  | .ended done => (done.tree, resultOf done)

/-- Has a request analyzed. -/
def analyze (c : Checker) (launch : Launcher) (h : Host) (request : Request) :
    Checker × FileTree × Except EngineFault String :=
  let (c, r) := c.program h
  match r with
  | .error fault => (c, h.tree, .error fault)
  | .ok path => (c, runProgram launch h path c.command.tail request)

/-- A checker that knows its program does not look for it again. -/
theorem program_of_resolved {c : Checker} {r : Except EngineFault String}
    (hr : c.resolved = some r) (h : Host) : c.program h = (c, r) := by
  simp [program, hr]

end Checker

end PlcAudit
