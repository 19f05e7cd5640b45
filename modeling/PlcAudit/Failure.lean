/-!
# Why an analysis fails

* `Failure`: what went wrong with an analysis, with its wording in `Failure.message`.
* `FailureKind`: the same without the particulars.
* `EngineFault`: what an engine answers in place of a result.
-/

namespace PlcAudit

/-- What an engine answers in place of a result: it cannot be used at all, or it failed at work. -/
inductive EngineFault where
  | unavailable (message : String)
  | threw (message : String)
  deriving DecidableEq, Repr

/-- The message of either fault. -/
def EngineFault.message : EngineFault → String
  | unavailable m | threw m => m

/-- What kind of failure an analysis ended with. -/
inductive FailureKind where
  | inputMissing
  | engineUnavailable
  | engineThrew
  | malformedOutput
  | busy
  | abandoned
  deriving DecidableEq, Repr

namespace FailureKind

/-- The key by which a kind is known in data. -/
def key : FailureKind → String
  | inputMissing => "input_missing"
  | engineUnavailable => "engine_unavailable"
  | engineThrew => "engine_threw"
  | malformedOutput => "malformed_output"
  | busy => "busy"
  | abandoned => "abandoned"

/-- What a kind is called in a sentence. -/
def title : FailureKind → String
  | inputMissing => "input missing"
  | engineUnavailable => "engine unavailable"
  | engineThrew => "engine failed"
  | malformedOutput => "malformed output"
  | busy => "busy"
  | abandoned => "abandoned"

/-- Two kinds have different keys. -/
theorem key_injective {a b : FailureKind} (h : a.key = b.key) : a = b := by
  cases a <;> cases b <;> simp_all [key]

end FailureKind

/-- What went wrong with an analysis. -/
inductive Failure where
  | inputMissing
  | engineUnavailable (message : String)
  | engineThrew (message : String)
  | malformedOutput (message : String)
  | busy
  /-- Whoever asked for the analysis stopped waiting for it. -/
  | abandoned
  deriving DecidableEq, Repr

namespace Failure

/-- The kind of a failure. -/
def kind : Failure → FailureKind
  | inputMissing => .inputMissing
  | engineUnavailable _ => .engineUnavailable
  | engineThrew _ => .engineThrew
  | malformedOutput _ => .malformedOutput
  | busy => .busy
  | abandoned => .abandoned

/-- The sentence that a user reads. -/
def message : Failure → String
  | inputMissing => "Please load a PLC source file before analyzing."
  | engineUnavailable m => "Analysis engine is unavailable: " ++ m
  | engineThrew m => "Analysis engine failed: " ++ m
  | malformedOutput m => "Engine returned malformed output: " ++ m
  | busy => "An analysis is already running"
  | abandoned => "Analysis was abandoned before it finished"

/-- The failure of an analysis whose engine answers with a fault. -/
def ofEngineFault : EngineFault → Failure
  | .unavailable m => engineUnavailable m
  | .threw m => engineThrew m

end Failure

end PlcAudit
