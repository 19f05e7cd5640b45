import PlcAudit.Finding.Order

/-!
# Findings by status

A report shows the rules that are followed, the violations, and the errors of the policy apart.

* `Groups`: the three lists.
* `Groups.push`: a finding put into the group of its status.
* `Groups.ofFindings`: the groups of a list, the violations sorted.
-/

namespace PlcAudit

/-- Findings apart by status.  The violations are in the order of the source, the others in the
order in which they were found. -/
structure Groups where
  followed : List Finding := []
  violations : List Finding := []
  errors : List Finding := []
  deriving DecidableEq, Repr, Inhabited

namespace Groups

/-- One more finding, behind those of its status. -/
def push (g : Groups) (f : Finding) : Groups :=
  match f.status with
  | .ok => { g with followed := g.followed ++ [f] }
  | .notFollowed => { g with violations := g.violations ++ [f] }
  | .error => { g with errors := g.errors ++ [f] }

/-- The groups of a list of findings: one finding after the other, and then the violations
sorted. -/
def ofFindings (fs : List Finding) : Groups :=
  let g := fs.foldl push {}
  { g with violations := Finding.sorted g.violations }

/-- How many findings there are in all. -/
def size (g : Groups) : Nat := g.followed.length + g.violations.length + g.errors.length

/-- Whether no group has a finding. -/
def isEmpty (g : Groups) : Bool := g.followed.isEmpty && g.violations.isEmpty && g.errors.isEmpty

/-- Whether there are violations. -/
def hasViolations (g : Groups) : Bool := !g.violations.isEmpty

/-- Errors of the policy are shown with the rest and fail nothing. -/
def hasPolicyErrors (g : Groups) : Bool := !g.errors.isEmpty

/-- All findings, group after group. -/
def toList (g : Groups) : List Finding := g.followed ++ g.violations ++ g.errors

@[simp] theorem length_toList (g : Groups) : g.toList.length = g.size := by
  simp [toList, size, Nat.add_assoc]

end Groups

end PlcAudit
