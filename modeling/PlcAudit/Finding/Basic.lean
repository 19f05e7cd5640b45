/-!
# Findings

What the audit says about one rule at one place.  A finding has a status, the number and name of its
rule, and optionally the line it concerns, the reason for it and a suggestion.  Lines are counted
from one, so a finding never names line zero.

* `Status`: followed, not followed, or an error on the side of the policy.
* `Finding`: one finding, built with `Finding.of`, `atLine`, `withReason` and `withSuggestion`.
* `catalogSize`: how many rules there are.
-/

namespace PlcAudit

/-- How many rules the catalog of secure coding practices holds. -/
def catalogSize : UInt32 := 20

/-- The outcome of evaluating one rule. -/
inductive Status where
  | ok
  | notFollowed
  /-- A problem with the run itself, usually a policy that cannot be read.  It fails nothing. -/
  | error
  deriving DecidableEq, Repr, Inhabited

namespace Status

/-- The one spelling in which a status is written. -/
def spelling : Status → String
  | ok => "OK"
  | notFollowed => "NOT_FOLLOWED"
  | error => "ERROR"

/-- The spellings that are understood: the written one, and an older one with a blank. -/
def ofSpelling? (s : String) : Option Status :=
  if s = "OK" then some ok
  else if s = "NOT_FOLLOWED" ∨ s = "NOT FOLLOWED" then some notFollowed
  else if s = "ERROR" then some error
  else none

/-- The spellings that are understood, in the order in which a message lists them. -/
def spellings : List String := ["OK", "NOT FOLLOWED", "NOT_FOLLOWED", "ERROR"]

@[simp] theorem ofSpelling?_spelling (s : Status) : ofSpelling? s.spelling = some s := by
  cases s <;> rfl

end Status

/-- What the audit says about one rule at one place. -/
structure Finding where
  status : Status
  ruleNo : UInt32
  ruleName : String
  line : Option UInt32 := none
  reason : Option String := none
  suggestion : Option String := none
  deriving DecidableEq, Repr, Inhabited

namespace Finding

/-- A finding without place, reason or suggestion. -/
def of (status : Status) (ruleNo : UInt32) (ruleName : String) : Finding :=
  { status, ruleNo, ruleName }

/-- The line that a number names: line zero does not exist. -/
def lineOf (n : UInt32) : Option UInt32 := if 0 < n then some n else none

/-- The finding at a line, or at none when the number is zero. -/
def atLine (f : Finding) (n : UInt32) : Finding := { f with line := lineOf n }

/-- Gives a finding a reason. -/
def withReason (f : Finding) (reason : String) : Finding := { f with reason := some reason }

/-- Gives a finding a suggestion. -/
def withSuggestion (f : Finding) (suggestion : String) : Finding :=
  { f with suggestion := some suggestion }

@[simp] theorem lineOf_zero : lineOf 0 = none := rfl

/-- No line has the number zero. -/
theorem lineOf_ne_some_zero (n : UInt32) : lineOf n ≠ some 0 := by
  unfold lineOf
  split
  · next h => intro h'; cases h'; exact absurd h (by decide)
  · simp

end Finding

end PlcAudit
