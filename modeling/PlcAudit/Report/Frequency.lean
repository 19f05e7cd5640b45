import PlcAudit.Finding.Basic

/-!
# How often each rule is violated

* `Tally`: a rule and the number of its violations.
* `violatedRules`: the rules that are violated, ascending.
* `tallies`: a tally for each of them, ascending, counted in one pass.
* `frequency`: the tallies, the greatest first, and equal ones by rule number.
-/

namespace PlcAudit

/-- A rule and how often it is violated. -/
structure Tally where
  ruleNo : UInt32
  count : Nat
  deriving DecidableEq, Repr, Inhabited

/-- The numbers of the rules in the list, ascending and each once. -/
def violatedRules (fs : List Finding) : List UInt32 :=
  ((fs.map (·.ruleNo)).mergeSort (fun a b => a ≤ b)).eraseReps

/-- One more violation of a rule.  The tallies ascend by rule; the one of the rule goes up, or is put
in its place with a count of one. -/
def increment (ruleNo : UInt32) : List Tally → List Tally
  | [] => [⟨ruleNo, 1⟩]
  | t :: ts =>
    if ruleNo < t.ruleNo then ⟨ruleNo, 1⟩ :: t :: ts
    else if ruleNo = t.ruleNo then { t with count := t.count + 1 } :: ts
    else t :: increment ruleNo ts

/-- A tally for each rule in the list, ascending by rule. -/
def tallies (fs : List Finding) : List Tally := fs.foldl (fun ts f => increment f.ruleNo ts) []

/-- The tallies, the greatest first; sorting keeps those with the same count in the ascending order
of their rules. -/
def frequency (fs : List Finding) : List Tally :=
  (tallies fs).mergeSort fun a b => b.count ≤ a.count

end PlcAudit
