import PlcAudit.Checker
import PlcAudit.CommandLine.Arguments
import PlcAudit.CommandLine.Exit
import PlcAudit.Console.Report
import PlcAudit.Session
import PlcAudit.Settings.Document

/-!
# Auditing one file

The command that audits a file: it takes in the file, the policy and the command of the engine, has
the engine analyze them once, and shows what came of it.

* `Intake`: what is taken in before the engine is needed, and `Intake.of` how.
* `Intake.session`: the one analysis.
* `check`: the command; what programs do is its parameter.
-/

namespace PlcAudit

/-- What a command leaves: how the program ends, or the fault that it reports, and what was
written. -/
structure Conclusion where
  result : Except String Exit
  output : String := ""
  diagnostics : String := ""
  deriving Repr

/-- What is taken in for an audit. -/
structure Intake where
  settings : Settings
  source : Source
  policy : Option String
  command : List String
  deriving Repr

/-- Why nothing can be audited: the input is of no use, or something else is at fault. -/
inductive IntakeFault where
  | input (message : String)
  | other (message : String)
  deriving DecidableEq, Repr

namespace Intake

/-- The settings of the working directory, where the arguments do not override them. -/
def settingsOf (tree : FileTree) (r : CheckRequest) : Settings :=
  let s := Settings.load tree "."
  if r.json then { s with report := { s.report with format := .json } } else s

/-- The policy, if one is named. -/
def policyOf (tree : FileTree) (path : Option String) : Except IntakeFault (Option String) :=
  match path with
  | none => .ok none
  | some p =>
    match tree.readText p with
    | .ok text => .ok (some text)
    | .error f => .error (.other ("failed to read policy " ++ p ++ ": " ++ f.message))

/-- The words of the engine's command, where the arguments come before the settings. -/
def commandOf (line : Option String) (configured : EngineCommand) :
    Except IntakeFault (List String) :=
  match line with
  | some l =>
    match Command.splitWords l with
    | some ws => .ok ws
    | none => .error (.other ("invalid --engine command: " ++ Command.unclosedQuote))
  | none =>
    match configured.words? with
    | some ws => .ok ws
    | none => .error (.other Settings.commandFault)

/-- Takes in what an audit needs: first the source, then the policy, then the command. -/
def of (tree : FileTree) (r : CheckRequest) : Except IntakeFault Intake := do
  let settings := settingsOf tree r
  let source ← (Source.read tree r.file).mapError fun f => .input f.message
  let policy ← policyOf tree r.policy
  let command ← commandOf r.engine settings.engine.command
  return { settings, source, policy, command }

/-- The session with the source and the policy. -/
def loaded (i : Intake) : Session :=
  (Session.start.run [.load i.source, .setPolicy i.policy]).1

/-- How the checker answers both calls. -/
def turn (i : Intake) (launch : Launcher) (h : Host) (request : Request) : Turn :=
  let (c, ready) := Checker.prepare { command := i.command } h
  { preparation := .answered ready
    analysis := .answered (c.analyze launch h request).2.2 }

/-- The one analysis.  When nothing is there to be analyzed, the checker is left alone. -/
def session (i : Intake) (launch : Launcher) (h : Host) : Session × Outcome :=
  let turn := match i.loaded.request? with
    | some request => i.turn launch h request
    | none => { preparation := .pending, analysis := .pending }
  i.loaded.step (.analyze turn)

end Intake

/-- The exit that the result of an analysis means. -/
def Exit.ofResult : Except Failure Report → Exit
  | .ok r => if r.groups.hasViolations then .violated else .success
  | .error .inputMissing => .invalidInput
  | .error _ => .error

/-- A line that says why nothing could be done. -/
def complaint (colour : Bool) (message : String) : String :=
  String.ofList (Console.paint colour (.coloured .red) "Error:".toList) ++ " " ++ message ++ "\n"

/-- A report in the format of the settings. -/
def showReport (settings : Settings) (source : Source) (colour : Bool) (s : Snapshot) : String :=
  match settings.report.format with
  | .json => Console.renderJson s (some source)
  | .text => Console.render s (some source) settings.report colour

/-- What an answer of the session leaves. -/
def concludeWith (i : Intake) (colour : Bool) (s : Session) : Answer → Conclusion
  | .refused f => { result := .ok .invalidInput, diagnostics := complaint colour f.message }
  | .finished r =>
    { result := .ok (Exit.ofResult r), output := showReport i.settings i.source colour s.snapshot }
  | _ => { result := .ok .error, output := showReport i.settings i.source colour s.snapshot }

/-- Audits a file. -/
def check (launch : Launcher) (h : Host) (colour : Bool) (r : CheckRequest) : Conclusion :=
  match Intake.of h.tree r with
  | .error (.input message) =>
    { result := .ok .invalidInput, diagnostics := complaint colour message }
  | .error (.other message) => { result := .error message }
  | .ok i =>
    let (s, o) := i.session launch h
    concludeWith i colour s o.answer

end PlcAudit
