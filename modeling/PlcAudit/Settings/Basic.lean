import PlcAudit.Command.Words

/-!
# Settings

How an audit finds its engine and shows its report.  The command of the engine is one line to be
split into words, or the words themselves.

* `EngineCommand`: the command in either shape, and `EngineCommand.words?` its words.
* `Settings`: the settings by section.
-/

namespace PlcAudit

/-- The command of an engine: a line, or the words of one. -/
inductive EngineCommand where
  | line (s : String)
  | words (ws : List String)
  deriving DecidableEq, Repr, Inhabited

/-- The words of a command, or `none` when a quote in its line is not closed. -/
def EngineCommand.words? : EngineCommand → Option (List String)
  | .line s => Command.splitWords s
  | .words ws => some ws

/-- How a report is written. -/
inductive ReportFormat where
  | text
  | json
  deriving DecidableEq, Repr, Inhabited

/-- The word for a format. -/
def ReportFormat.name : ReportFormat → String
  | text => "text"
  | json => "json"

/-- The format with a name. -/
def ReportFormat.ofName? (s : String) : Option ReportFormat :=
  if s = "text" then some text else if s = "json" then some json else none

@[simp] theorem ReportFormat.ofName?_name (f : ReportFormat) : ofName? f.name = some f := by
  cases f <;> rfl

/-- The settings of the engine. -/
structure EngineSettings where
  command : EngineCommand := .line "plc_secure_checker --json"
  deriving DecidableEq, Repr, Inhabited

/-- The settings of the report: its format, whether the line of a violation is shown, and whether
the rules that are followed are listed. -/
structure ReportSettings where
  format : ReportFormat := .text
  showSource : Bool := true
  showFollowed : Bool := true
  deriving DecidableEq, Repr, Inhabited

/-- The settings by section. -/
structure Settings where
  engine : EngineSettings := {}
  report : ReportSettings := {}
  deriving DecidableEq, Repr, Inhabited

/-- The name of the file that holds the settings of a directory. -/
def settingsFile : String := "plcguard.toml"

/-- What is said of a configured command with a quote that is not closed. -/
def Settings.commandFault : String :=
  "invalid [engine] command in " ++ settingsFile ++ ": " ++ Command.unclosedQuote

end PlcAudit
