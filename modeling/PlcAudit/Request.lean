import PlcAudit.Json.Writer

/-!
# Requests

What an engine is asked: the source, the policy, and the name of the file.  A request is written as
one JSON object on one line.

* `Request`: a request.
* `Request.of`: a request with what is missing filled in.
* `Request.wire`: the text that an engine receives.
-/

namespace PlcAudit

/-- The name of a file that has none. -/
def placeholderName : String := "uploaded.scl"

/-- What an engine is asked.  The policy is passed as it is, and empty when there is none. -/
structure Request where
  source : String
  policy : String
  fileName : String
  deriving DecidableEq, Repr

namespace Request

/-- A request for a source, with a policy and a file name if they are known. -/
def of (source : String) (policy fileName : Option String) : Request where
  source := source
  policy := policy.getD ""
  fileName := (fileName.filter (· ≠ "")).getD placeholderName

/-- The JSON of a request. -/
def toValue (r : Request) : Json.Value :=
  .object
    [("source", .string r.source), ("policy", .string r.policy), ("file_name", .string r.fileName)]

/-- The text that an engine receives. -/
def wire (r : Request) : String := Json.compact r.toValue

end Request

end PlcAudit
