/-!
# Exits

* `Exit`: how the program ends, with its code in `Exit.code`.
-/

namespace PlcAudit

/-- How the program ends: no rule is violated; the engine or its output failed; the input is of no
use; some rule is violated. -/
inductive Exit where
  | success
  | error
  | invalidInput
  | violated
  deriving DecidableEq, Repr

/-- The code by which an exit is known outside. -/
def Exit.code : Exit → Nat
  | success => 0
  | error => 1
  | invalidInput => 2
  | violated => 6

/-- Exits are told apart by their codes. -/
theorem Exit.code_inj {a b : Exit} (h : a.code = b.code) : a = b := by
  cases a <;> cases b <;> first | rfl | cases h

end PlcAudit
