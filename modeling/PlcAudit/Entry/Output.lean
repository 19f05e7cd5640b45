import PlcAudit.Entry.Decode
import PlcAudit.Json.Reader

/-!
# The output of an engine

An engine writes one JSON array of entries.  It reports that it could not even start as an object
with the key `error`.  Output of any other form is refused as a whole.

* `OutputFault`: why an output is refused, with its wording in `OutputFault.message`.
* `entriesOf`: the entries of an output.
-/

namespace PlcAudit

open Json (Value)

/-- Why an output is refused. -/
inductive OutputFault where
  | notJson (fault : Json.SyntaxFault) (position : Json.Position)
  | engineReported (message : String)
  | notArray (kind : String)
  | badEntry (fault : EntryFault)
  deriving DecidableEq, Repr

/-- The wording of a fault. -/
def OutputFault.message : OutputFault → String
  | notJson fault p =>
    "not valid JSON (" ++ fault.message ++ " at line " ++ toString p.line ++ " column " ++
      toString p.column ++ ")"
  | engineReported m => "engine reported: " ++ m
  | notArray kind => "expected a JSON array, got " ++ kind
  | badEntry fault => "unexpected result record (" ++ fault.message ++ ")"

/-- The entries of an array, or the fault of the first element that is none. -/
def entriesOfItems (vs : List Value) : Except OutputFault (List Entry) :=
  (vs.mapM Entry.ofValue).mapError .badEntry

/-- Why a value that is no array is refused. -/
def refuseNonArray (v : Value) : OutputFault :=
  match (v.member? "error").bind Value.asString? with
  | some m => .engineReported m
  | none => .notArray v.kind

/-- The entries that a value spells. -/
def entriesOfValue : Value → Except OutputFault (List Entry)
  | .array vs => entriesOfItems vs
  | v => .error (refuseNonArray v)

/-- The entries of an engine's output. -/
def entriesOf (output : String) : Except OutputFault (List Entry) :=
  let text := output.toList
  match Json.read text with
  | .ok v => entriesOfValue v
  | .error r => .error (.notJson r.fault (Json.locate text r.remaining))

end PlcAudit
