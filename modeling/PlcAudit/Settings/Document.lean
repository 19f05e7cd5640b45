import PlcAudit.Host.FileTree
import PlcAudit.Settings.Basic
import PlcAudit.Toml.Reader
import PlcAudit.Toml.Writer

/-!
# Settings as text

Settings are kept in a file with the sections `engine` and `report`.  A text is taken or refused as
a whole.  One that is taken says everything: what it does not mention has its default value,
whatever it was before.  Keys that mean nothing are passed over.

* `Settings.ofEntries`: the settings that a table spells, or `none` when one of them does not fit.
* `Settings.apply`: the settings after a text.
* `Settings.toToml`: the text of settings.
* `Settings.load`: the settings of a directory.
-/

namespace PlcAudit

namespace Settings

open Toml (Entries)

/-! ## Reading -/

/-- A string, as the text of one. -/
def textOf : Toml.Value → Option String
  | .string s => some s
  | _ => none

/-- The command of an engine: a string, or an array of strings. -/
def commandOf : Toml.Value → Option EngineCommand
  | .string s => some (.line s)
  | .array vs => (vs.mapM textOf).map .words
  | _ => none

/-- A truth value. -/
def booleanOf : Toml.Value → Option Bool
  | .boolean b => some b
  | _ => none

/-- Whether nothing is in a table or an array. -/
def isEmptyGroup : Toml.Value → Bool
  | .array vs => vs.isEmpty
  | .table _ es => es.isEmpty
  | _ => false

/-- A format: its name, or a table with the name as its only key and nothing as its value. -/
def formatOf : Toml.Value → Option ReportFormat
  | .string s => ReportFormat.ofName? s
  | .table _ [(name, v)] => if isEmptyGroup v then ReportFormat.ofName? name else none
  | _ => none

/-- The value of a field, or its default when the field is missing. -/
def fieldOr (default : α) (read : Toml.Value → Option α) : Option Toml.Value → Option α
  | none => some default
  | some v => read v

/-- The fields of a section.  A section is a table, or an array of its fields in order; a time has
no fields at all. -/
def fields (names : List String) : Toml.Value → Option (List (Option Toml.Value))
  | .table _ es => some (names.map (Entries.get? es))
  | .array vs => some ((List.range names.length).map (vs[·]?))
  | .tables ts => some ((List.range names.length).map fun i => ts[i]?.map (.table .header ·))
  | .time _ => some (names.map fun _ => none)
  | _ => none

/-- The section of the engine. -/
def engineOf (v : Toml.Value) : Option EngineSettings := do
  match ← fields ["command"] v with
  | [command] => return { command := ← fieldOr ({} : EngineSettings).command commandOf command }
  | _ => none

/-- The section of the report. -/
def reportOf (v : Toml.Value) : Option ReportSettings := do
  match ← fields ["format", "show_source", "show_followed"] v with
  | [format, showSource, showFollowed] =>
    let format ← fieldOr .text formatOf format
    let showSource ← fieldOr true booleanOf showSource
    let showFollowed ← fieldOr true booleanOf showFollowed
    return { format, showSource, showFollowed }
  | _ => none

/-- The settings that a table spells. -/
def ofEntries (es : Entries) : Option Settings := do
  let engine ← fieldOr {} engineOf (es.get? "engine")
  let report ← fieldOr {} reportOf (es.get? "report")
  return { engine, report }

/-- The settings that a text spells. -/
def ofToml (text : String) : Option Settings := do ofEntries (← Toml.parse text)

/-- The settings after a text: those that it spells, or the ones before when it is refused. -/
def apply (s : Settings) (text : String) : Settings := (ofToml text).getD s

/-! ## Writing -/

/-- The command of an engine. -/
def commandText : EngineCommand → List Char
  | .line s => Toml.writeString s
  | .words ws => Toml.writeStrings ws

/-- A key and its value on a line. -/
def keyLine (key : String) (value : List Char) : List Char :=
  key.toList ++ " = ".toList ++ value ++ ['\n']

/-- The text of settings. -/
def toToml (s : Settings) : String :=
  String.ofList <|
    "[engine]\n".toList ++
    keyLine "command" (commandText s.engine.command) ++
    "\n[report]\n".toList ++
    keyLine "format" (Toml.writeString s.report.format.name) ++
    keyLine "show_source" (Toml.writeBoolean s.report.showSource) ++
    keyLine "show_followed" (Toml.writeBoolean s.report.showFollowed)

/-! ## Files -/

/-- The settings of a directory: those of its file, and the defaults when it cannot be read or is
refused. -/
def load (t : FileTree) (dir : String) : Settings :=
  match t.readText (Path.join dir settingsFile) with
  | .ok text => apply {} text
  | .error _ => {}

end Settings

end PlcAudit
