import PlcAudit.Finding.Basic

/-!
# The order of violations

Violations are listed from the top of the source to its end, and at one line by rule number.  Those
without a line come last.  Violations with the same line and rule stay in the order in which they
were found.

* `Finding.compareLine`, `Finding.precedes`: the comparison.
* `Finding.sorted`: the violations in order.
-/

namespace PlcAudit.Finding

/-- Two lines compared, of which either may be missing.  Whether it is comes first, so that a missing
line is after every other. -/
def compareLine (a b : Option UInt32) : Ordering :=
  (compare a.isNone b.isNone).then (compare a b)

/-- Whether `a` may stand before `b`: by line, and at one line by rule number. -/
def precedes (a b : Finding) : Bool :=
  ((compareLine a.line b.line).then (compare a.ruleNo b.ruleNo)).isLE

/-- The findings in order, those that are equal in line and rule as they came. -/
def sorted (fs : List Finding) : List Finding := fs.mergeSort precedes

end PlcAudit.Finding
