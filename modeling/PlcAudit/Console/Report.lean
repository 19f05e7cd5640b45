import PlcAudit.Console.Bar
import PlcAudit.Console.Style
import PlcAudit.Settings.Basic
import PlcAudit.Snapshot
import PlcAudit.Source.Basic

/-!
# The report on a console

A snapshot as it is shown to a reader: why the last analysis failed, the compliance, the rules that
are followed, the errors of the policy, the violations with the lines they concern, how often each
rule is violated, and a verdict.

* `View`: what a report is shown with.
* `render`: the whole report.
-/

namespace PlcAudit.Console

/-- What a report is shown with: the source, the settings, and whether there is colour. -/
structure View where
  source : Option Source
  settings : ReportSettings
  colour : Bool

namespace View

/-- A text in a style. -/
def paint (v : View) (style : Style) (s : String) : List Char :=
  Console.paint v.colour style s.toList

/-- The line that separates the parts of a report. -/
def ruler (v : View) : List Char :=
  v.paint .dim (String.ofList (List.replicate 60 '─')) ++ ['\n']

/-- A heading on a line of its own. -/
def heading (v : View) (c : Colour) (s : String) : List Char :=
  v.paint (.boldColoured c) s ++ ['\n']

/-- Name and place of a report. -/
def banner (v : View) : List Char :=
  ['\n'] ++ v.ruler ++ v.paint .bold " PLC SECURE CODING REPORT" ++ ['\n'] ++
    (match v.source with
      | some f => ' ' :: (v.paint .dim f.name ++ ['\n'])
      | none => []) ++
    v.ruler ++ ['\n']

/-- Why the last analysis failed. -/
def failure (v : View) (s : Snapshot) : List Char :=
  match s.message? with
  | none => []
  | some m =>
    v.paint (.boldColoured .red) "X" ++ [' '] ++ v.paint (.coloured .red) m ++ ['\n'] ++
      (if s.report.isSome then
        ' ' :: ' ' :: (v.paint .dim "Showing results from the previous successful run." ++ ['\n'])
      else []) ++
      ['\n']

/-- The share of the rules that are passed. -/
def compliance (v : View) (c : Compliance) : List Char :=
  let verdict : Style := .boldColoured (if c.failedRules = 0 then .green else .yellow)
  "  ".toList ++ v.paint (.coloured .white) "Overall Compliance:" ++ [' '] ++
    v.paint verdict (toString c.percent ++ "% compliant") ++ ['\n'] ++
    "  ".toList ++ v.paint (.coloured .white) "Rules:" ++ [' '] ++
    v.paint (.coloured .green) (toString c.passedRules) ++ " passed, ".toList ++
    v.paint (.coloured .red) (toString c.failedRules) ++ " failed of ".toList ++
    (toString c.totalRules).toList ++ " rules\n\n".toList

/-- Number and name of the rule of a finding. -/
def ruleTitle (f : Finding) : String := toString f.ruleNo ++ ". " ++ f.ruleName

/-- A rule that is followed. -/
def followedLine (v : View) (f : Finding) : List Char :=
  "    ".toList ++ v.paint (.coloured .green) "✓" ++ [' '] ++ (ruleTitle f).toList ++ ['\n']

/-- The rules that are followed, if they are to be listed. -/
def followed (v : View) (fs : List Finding) : List Char :=
  if v.settings.showFollowed && !fs.isEmpty then
    v.heading .green "  PRACTICES FOLLOWED" ++ fs.flatMap v.followedLine ++ ['\n']
  else []

/-- An error of the policy. -/
def policyErrorLine (v : View) (f : Finding) : List Char :=
  "    ".toList ++ v.paint (.boldColoured .yellow) "!" ++ [' '] ++ (ruleTitle f).toList ++
    (match f.reason with
      | some r => ": ".toList ++ r.toList
      | none => []) ++
    ['\n']

/-- The errors of the policy. -/
def policyErrors (v : View) (fs : List Finding) : List Char :=
  if fs.isEmpty then []
  else v.heading .yellow "  POLICY ERRORS" ++ fs.flatMap v.policyErrorLine ++ ['\n']

/-- A number, right-aligned in four places. -/
def aligned (n : UInt32) : String :=
  let ds := (toString n).toList
  String.ofList (List.replicate (4 - ds.length) ' ' ++ ds)

/-- The place of a violation. -/
def placeLine (v : View) (f : Finding) : List Char :=
  let file := match v.source with
    | some s => s.name
    | none => "<source>"
  "  ".toList ++ v.paint (.coloured .blue) "-->" ++ [' '] ++ file.toList ++
    (match f.line with
      | some n => ':' :: (toString n).toList
      | none => []) ++
    ['\n']

/-- The text of the line that a violation concerns, where the source has that line. -/
def codeLine (v : View) (f : Finding) : List Char :=
  match f.line, v.source.bind (·.line? f.line) with
  | some n, some code =>
    "   ".toList ++ v.paint (.coloured .blue) (aligned n ++ " |") ++ [' '] ++ code.toList ++ ['\n']
  | _, _ => []

theorem codeLine_of_some (v : View) {f : Finding} {n : UInt32} {code : String}
    (hline : f.line = some n) (hcode : v.source.bind (·.line? f.line) = some code) :
    v.codeLine f = "   ".toList ++ v.paint (.coloured .blue) (aligned n ++ " |") ++ [' '] ++
      code.toList ++ ['\n'] := by
  rw [codeLine, hcode, hline]

theorem codeLine_of_none (v : View) {f : Finding}
    (hcode : v.source.bind (·.line? f.line) = none) : v.codeLine f = [] := by
  rw [codeLine, hcode]
  cases f.line <;> rfl

/-- A remark on a violation. -/
def remark (v : View) (c : Colour) (label : String) : Option String → List Char
  | none => []
  | some s =>
    "   ".toList ++ v.paint (.coloured .blue) "=" ++ [' '] ++ v.paint (.coloured c) label ++
      [' '] ++ s.toList ++ ['\n']

/-- A violation. -/
def violation (v : View) (f : Finding) : List Char :=
  v.heading .red ("error: " ++ ruleTitle f) ++
    v.placeLine f ++
    (if v.settings.showSource then v.codeLine f else []) ++
    v.remark .cyan "REASON:" f.reason ++
    v.remark .green "FIX:" f.suggestion ++
    ['\n']

/-- The violations. -/
def violations (v : View) (fs : List Finding) : List Char :=
  if fs.isEmpty then []
  else v.heading .red "  PRACTICES NOT FOLLOWED" ++ ['\n'] ++ fs.flatMap v.violation

/-- The greatest number of cells in a bar. -/
def barWidth : UInt64 := 24

/-- A text, filled up with blanks to eight places. -/
def padded (s : String) : List Char := s.toList ++ List.replicate (8 - s.length) ' '

/-- A rule and how often it is violated. -/
def tallyLine (v : View) (max : Nat) (t : Tally) : List Char :=
  "    ".toList ++ padded ("Rule " ++ toString t.ruleNo) ++ [' '] ++
    Console.paint v.colour (.coloured .red) (bar t.count.toUInt64 max.toUInt64 barWidth) ++ [' '] ++
    (toString t.count).toList ++ ['\n']

/-- The greatest count of a table. -/
def maxCount (ts : List Tally) : Nat := (ts.map (·.count)).foldl max 0

/-- How often each rule is violated. -/
def frequency (v : View) (ts : List Tally) : List Char :=
  if ts.isEmpty then []
  else
    v.heading .yellow "  VIOLATION FREQUENCY" ++ ts.flatMap (v.tallyLine (maxCount ts)) ++ ['\n']

/-- The verdict. -/
def verdict (v : View) (r : Report) : List Char :=
  let n := r.groups.violations.length
  let rules := r.frequency.length
  if n = 0 then
    v.paint (.boldColoured .green) "OK" ++ " No secure coding violations found.\n".toList
  else
    v.paint (.boldColoured .red) "X" ++
      (" " ++ toString n ++ " " ++ pluralize "violation" n ++ " across " ++ toString rules ++ " " ++
        pluralize "rule" rules ++ ".\n").toList

/-- The findings of a report. -/
def report (v : View) (r : Report) : List Char :=
  v.compliance r.compliance ++ v.followed r.groups.followed ++ v.policyErrors r.groups.errors ++
    v.violations r.groups.violations ++ v.frequency r.frequency ++ v.verdict r

/-- What there is to show of an analysis. -/
def body (v : View) (s : Snapshot) : List Char :=
  match s.report with
  | some r => v.report r
  | none => if s.isLoading then "Analyzing… please wait\n".toList else []

/-- The whole report, as characters. -/
def chars (v : View) (s : Snapshot) : List Char := v.banner ++ v.failure s ++ v.body s ++ v.ruler

end View

/-- A snapshot as it is shown on a console. -/
def render (s : Snapshot) (source : Option Source) (settings : ReportSettings) (colour : Bool) :
    String :=
  String.ofList (View.chars ⟨source, settings, colour⟩ s)

/-- A snapshot as one JSON document, with the name of the source. -/
def document (s : Snapshot) (source : Option Source) : Json.Value :=
  .object (optionalMember "file" (fun f : Source => .string f.name) source ++ s.members)

/-- A snapshot as it is written for a program: the JSON document over several lines. -/
def renderJson (s : Snapshot) (source : Option Source) : String :=
  Json.indented (document s source) ++ "\n"

end PlcAudit.Console
