import PlcAudit.Proofs.Toml.Lines
import PlcAudit.Settings.Document

/-!
# Settings are restored from their text

What is written of settings spells all of them: every key is there, so no default gets in the way,
and a command keeps its shape, since a string and an array of strings are told apart.  A text that
is taken replaces everything, so it does not matter which settings were there before.

* `lines`, `toList_toToml`: the text of settings, line by line.
* `readStatements_toToml`: the statements that it is read as.
* `ofEntries_entries`: the settings that the table of these statements spells.
* `restored_from_text`: the text of settings gives them back.
-/

namespace PlcAudit.Settings

open Toml (Statement Entries Spells SpellsLine IsBare)

/-! ## The text and its statements -/

/-- The value that the command of an engine is written as. -/
def commandValue : EngineCommand → Toml.Value
  | .line s => .string s
  | .words ws => Toml.arrayOf ws

theorem spells_commandText (command : EngineCommand) :
    Spells (commandText command) (commandValue command) := by
  cases command with
  | line s => exact Toml.spells_string s
  | words ws => exact Toml.spells_strings ws

/-- A command is read from its value in the shape that it was written in. -/
theorem commandOf_commandValue (command : EngineCommand) :
    commandOf (commandValue command) = some command := by
  cases command with
  | line s => rfl
  | words ws =>
    have htexts : (ws.map Toml.Value.string).mapM textOf = some ws := by
      induction ws with
      | nil => rfl
      | cons s ws ih => rw [List.map_cons, List.mapM_cons, ih]; rfl
    rw [commandValue, Toml.arrayOf, commandOf, htexts]
    rfl

variable (s : Settings)

/-- The lines of the text of settings. -/
def lines : List (List Char) :=
  [ '[' :: ("engine".toList ++ [']', '\n']),
    keyLine "command" (commandText s.engine.command),
    ['\n'],
    '[' :: ("report".toList ++ [']', '\n']),
    keyLine "format" (Toml.writeString s.report.format.name),
    keyLine "show_source" (Toml.writeBoolean s.report.showSource),
    keyLine "show_followed" (Toml.writeBoolean s.report.showFollowed) ]

/-- What each of the lines says. -/
def statements : List (List Statement) :=
  [ [.header ["engine"]],
    [.assign ["command"] (commandValue s.engine.command)],
    [],
    [.header ["report"]],
    [.assign ["format"] (.string s.report.format.name)],
    [.assign ["show_source"] (.boolean s.report.showSource)],
    [.assign ["show_followed"] (.boolean s.report.showFollowed)] ]

theorem toList_toToml : s.toToml.toList = s.lines.flatten := by
  have hengine : "[engine]\n".toList = '[' :: ("engine".toList ++ [']', '\n']) := by decide
  have hreport : "\n[report]\n".toList = '\n' :: '[' :: ("report".toList ++ [']', '\n']) := by
    decide
  unfold toToml
  rw [String.toList_ofList, hengine, hreport]
  simp only [lines, List.flatten_cons, List.flatten_nil, List.append_assoc, List.append_nil,
    List.cons_append, List.nil_append]

theorem spellsLine_keyLine {valueFuel : Nat} {key : String} (hkey : IsBare key) {cs : List Char}
    {v : Toml.Value} (hv : Spells cs v) (hfuel : (keyLine key cs).length ≤ valueFuel) :
    SpellsLine valueFuel (keyLine key cs) [.assign [key] v] := by
  have htext : keyLine key cs = key.toList ++ ' ' :: '=' :: ' ' :: (cs ++ ['\n']) := by
    simp [keyLine]
  rw [htext] at hfuel ⊢
  refine Toml.spellsLine_assign hkey hv ?_
  simp only [List.length_append, List.length_cons] at hfuel
  omega

theorem length_le_length_flatten {α : Type} {l : List α} {ls : List (List α)} (h : l ∈ ls) :
    l.length ≤ ls.flatten.length := (List.sublist_flatten_of_mem h).length_le

/-- Each line is read as what it says. -/
theorem forall₂_spellsLine {valueFuel : Nat} (hfuel : s.toToml.toList.length ≤ valueFuel) :
    List.Forall₂ (SpellsLine valueFuel) s.lines s.statements := by
  rw [toList_toToml] at hfuel
  have hline : ∀ cs ∈ s.lines, cs.length ≤ valueFuel := fun cs hcs =>
    (length_le_length_flatten hcs).trans hfuel
  simp only [lines, List.forall_mem_cons] at hline
  obtain ⟨-, hcommand, -, -, hformat, hsource, hfollowed, -⟩ := hline
  refine .cons (Toml.spellsLine_header ?_) (.cons (spellsLine_keyLine ?_ ?_ hcommand)
    (.cons Toml.spellsLine_blank (.cons (Toml.spellsLine_header ?_)
      (.cons (spellsLine_keyLine ?_ ?_ hformat) (.cons (spellsLine_keyLine ?_ ?_ hsource)
        (.cons (spellsLine_keyLine ?_ ?_ hfollowed) .nil))))))
  · decide
  · decide
  · exact spells_commandText _
  · decide
  · decide
  · exact Toml.spells_string _
  · decide
  · exact Toml.spells_boolean _
  · decide
  · exact Toml.spells_boolean _

theorem readStatements_toToml :
    Toml.readStatements s.toToml.toList = some s.statements.flatten := by
  have hlines : s.lines.length ≤ s.toToml.toList.length := by
    simp only [toList_toToml, lines, keyLine, List.flatten_cons, List.length_append,
      List.length_cons, List.length_nil]
    omega
  have hspells : List.Forall₂ (SpellsLine (2 * s.toToml.toList.length + 2)) s.lines s.statements :=
    s.forall₂_spellsLine (by omega)
  have hread := Toml.readLines_flatten hspells (s.toToml.toList.length + 1) (by omega)
  rw [← toList_toToml] at hread
  -- the text begins with a bracket, and so with no byte order mark
  obtain ⟨cs, hcs⟩ : ∃ cs, s.toToml.toList = '[' :: cs := by
    rw [toList_toToml]
    exact ⟨_, rfl⟩
  unfold Toml.readStatements
  rw [hcs] at hread ⊢
  exact hread

/-- The table that the text of settings spells. -/
def entries : Entries :=
  [("engine", .table .header [("command", commandValue s.engine.command)]),
    ("report", .table .header
      [("format", .string s.report.format.name), ("show_source", .boolean s.report.showSource),
        ("show_followed", .boolean s.report.showFollowed)])]

theorem parse_toToml : Toml.parse s.toToml = some s.entries := by
  rw [Toml.parse, readStatements_toToml]
  rfl

/-- **The table spells the settings that were written.** -/
theorem ofEntries_entries : ofEntries s.entries = some s := by
  have hengine : engineOf (.table .header [("command", commandValue s.engine.command)]) =
      some s.engine := by
    simp [engineOf, fields, fieldOr, commandOf_commandValue]
  have hreport : reportOf (.table .header
      [("format", .string s.report.format.name), ("show_source", .boolean s.report.showSource),
        ("show_followed", .boolean s.report.showFollowed)]) = some s.report := by
    simp [reportOf, fields, fieldOr, formatOf, booleanOf]
  simp [ofEntries, entries, fieldOr, hengine, hreport]

/-- **Settings are restored from their text,** in every field and whatever the settings were before
it was read. -/
theorem restored_from_text (s before : Settings) :
    ofToml s.toToml = some s ∧ before.apply s.toToml = s := by
  have hread : ofToml s.toToml = some s := by
    rw [ofToml, parse_toToml]
    exact s.ofEntries_entries
  refine ⟨hread, ?_⟩
  rw [apply, hread]
  rfl

end PlcAudit.Settings
