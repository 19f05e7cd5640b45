import PlcAudit.Entry.Output
import PlcAudit.Failure
import PlcAudit.Finding.Distinct
import PlcAudit.Report.Compliance
import PlcAudit.Report.Groups

/-!
# Reports

What one successful analysis shows: the findings by status, the compliance with the catalog, and how
often each rule is violated.

* `Report`: a report.
* `Report.ofFindings`: the report of a list of findings, repeated ones counted once.
* `Report.ofOutput`: the report of an engine's output.
-/

namespace PlcAudit

/-- What one successful analysis shows. -/
structure Report where
  groups : Groups
  compliance : Compliance
  frequency : List Tally
  deriving DecidableEq, Repr, Inhabited

namespace Report

/-- The report of findings that are told apart by their status already. -/
def ofGroups (groups : Groups) : Report where
  groups := groups
  compliance := PlcAudit.compliance groups.violations
  frequency := PlcAudit.frequency groups.violations

/-- The report of a list of findings. -/
def ofFindings (fs : List Finding) : Report := ofGroups (.ofFindings (Finding.distinct fs))

end Report

/-- The entries of an output, or the failure of an analysis that gave it. -/
def parseOutput (output : String) : Except Failure (List Entry) :=
  (entriesOf output).mapError fun fault => .malformedOutput fault.message

/-- The report of an engine's output.  Only reading the entries can fail. -/
def Report.ofOutput (output : String) : Except Failure Report :=
  (parseOutput output).map fun es => ofFindings (findingsOf es)

end PlcAudit
