import PlcAudit.Json.Writer
import PlcAudit.Report.Basic

/-!
# Reports as JSON

The members of an object are written in the order given here.  A finding leaves out the optional
fields that it does not have.

* `Finding.toValue`, `Report.toValue`: the JSON of a finding and of a report.
-/

namespace PlcAudit

open Json (Value)

/-- A member for a value that may be absent, and no member when it is. -/
def optionalMember (key : String) (f : α → Value) : Option α → List (String × Value)
  | none => []
  | some a => [(key, f a)]

/-- A word as a number. -/
def wordValue (n : UInt32) : Value := .ofNat n.toNat

namespace Finding

/-- The JSON of a finding. -/
def toValue (f : Finding) : Value :=
  .object <|
    [("status", .string f.status.spelling), ("rule_no", wordValue f.ruleNo),
      ("rule_name", .string f.ruleName)] ++
    optionalMember "line" wordValue f.line ++
    optionalMember "reason" .string f.reason ++
    optionalMember "suggestion" .string f.suggestion

/-- The JSON of a list of findings. -/
def listValue (fs : List Finding) : Value := .array (fs.map toValue)

end Finding

/-- The groups as an object. -/
def Groups.toValue (g : Groups) : Value :=
  .object
    [("followed", Finding.listValue g.followed), ("violations", Finding.listValue g.violations),
      ("errors", Finding.listValue g.errors)]

/-- The figures as an object. -/
def Compliance.toValue (c : Compliance) : Value :=
  .object
    [("total_rules", wordValue c.totalRules), ("failed_rule_count", wordValue c.failedRules),
      ("passed_rule_count", wordValue c.passedRules), ("percent", wordValue c.percent)]

/-- A tally as an object. -/
def Tally.toValue (t : Tally) : Value :=
  .object [("rule_no", wordValue t.ruleNo), ("count", .ofNat t.count)]

/-- The JSON of a table of tallies. -/
def frequencyValue (ts : List Tally) : Value := .array (ts.map Tally.toValue)

/-- A report as an object. -/
def Report.toValue (r : Report) : Value :=
  .object
    [("results", r.groups.toValue), ("summary", r.compliance.toValue),
      ("frequency", frequencyValue r.frequency)]

end PlcAudit
