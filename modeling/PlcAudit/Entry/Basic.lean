import PlcAudit.Finding.Basic

/-!
# Entries of an engine's output

An engine writes its findings in one of two shapes.  A flat entry has line, reason and suggestion
beside the rule; a nested one has them in a detail block.  Either becomes a finding, and after that
nobody asks which shape it had.

* `Detail`: a detail block.
* `Entry`: an entry in either shape.
* `Entry.toFinding`: the finding it stands for.
-/

namespace PlcAudit

/-- A detail block.  For each key it says whether the key was written at all: a key that is written
as `null` clears the flat value, and one that is missing keeps it. -/
structure Detail where
  line : Option (Option UInt32) := none
  reason : Option (Option String) := none
  suggestion : Option (Option String) := none
  deriving DecidableEq, Repr, Inhabited

/-- An entry as the engine wrote it. -/
structure Entry where
  status : Status
  ruleNo : UInt32
  ruleName : String
  line : Option UInt32 := none
  reason : Option String := none
  suggestion : Option String := none
  detail : Option Detail := none
  deriving DecidableEq, Repr, Inhabited

namespace Entry

/-- The value of a field: the one written in the detail block, if any, and the flat one otherwise.
-/
def choose (field : Detail → Option (Option α)) (flat : Option α) (detail : Option Detail) :
    Option α :=
  (detail.bind field).getD flat

@[simp] theorem choose_none (field : Detail → Option (Option α)) (flat : Option α) :
    choose field flat none = flat := rfl

/-- The finding that an entry stands for.  A line zero that was chosen is no line. -/
def toFinding (e : Entry) : Finding where
  status := e.status
  ruleNo := e.ruleNo
  ruleName := e.ruleName
  line := (choose Detail.line e.line e.detail).bind Finding.lineOf
  reason := choose Detail.reason e.reason e.detail
  suggestion := choose Detail.suggestion e.suggestion e.detail

end Entry

/-- The findings that entries stand for, one for each and in their order. -/
def findingsOf (es : List Entry) : List Finding := es.map Entry.toFinding

@[simp] theorem length_findingsOf (es : List Entry) : (findingsOf es).length = es.length := by
  simp [findingsOf]

end PlcAudit
