import PlcAudit.Report.Frequency

/-!
# Compliance

How many rules of the catalog the source passes.  A rule fails once, however often it is violated.

* `Compliance`: the counts and the percentage.
* `percentOf`: a share in percent, a half rounded up.
* `compliance`: the compliance of a list of violations.
-/

namespace PlcAudit

/-- The rules of the catalog by outcome. -/
structure Compliance where
  totalRules : UInt32
  failedRules : UInt32
  passedRules : UInt32
  percent : UInt32
  deriving DecidableEq, Repr, Inhabited

/-- The share of `part` in `total` in percent, rounded, a half up; of nothing it is zero. -/
def percentOf (part total : UInt32) : UInt32 :=
  if total = 0 then 0 else (part * 100 + total / 2) / total

/-- The number of rules in the list, as far as a 32-bit number can tell. -/
def failedRuleCount (fs : List Finding) : UInt32 :=
  UInt32.ofNat (min (violatedRules fs).length (UInt32.size - 1))

/-- What is left of the catalog when `failed` rules fail. -/
def passedRuleCount (failed : UInt32) : UInt32 :=
  if failed ≤ catalogSize then catalogSize - failed else 0

/-- The compliance of a source with these violations. -/
def compliance (fs : List Finding) : Compliance :=
  let failed := failedRuleCount fs
  let passed := passedRuleCount failed
  { totalRules := catalogSize
    failedRules := failed
    passedRules := passed
    percent := percentOf passed catalogSize }

end PlcAudit
