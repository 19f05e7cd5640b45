import PlcAudit.Report.Document

/-!
# Snapshots

What a user sees of an audit at one moment: whether it is idle, loading, or has ended well or badly;
the last report, which stays in sight while a later analysis runs and after it fails; and why the
last analysis failed.

* `Phase`, `Notice`, `Snapshot`: the parts and the whole.
* `Snapshot.idle`, `loading`, `success`, `failed`: how one snapshot follows another.
* `Snapshot.toValue`: a snapshot as JSON.
-/

namespace PlcAudit

open Json (Value)

/-- Where an audit stands. -/
inductive Phase where
  | idle
  | loading
  | success
  | failure
  deriving DecidableEq, Repr, Inhabited

/-- The key by which a phase is known in data. -/
def Phase.key : Phase → String
  | idle => "idle"
  | loading => "loading"
  | success => "success"
  | failure => "failure"

/-- Why the last analysis failed, as it is shown. -/
structure Notice where
  kind : FailureKind
  message : String
  deriving DecidableEq, Repr

/-- The notice of a failure. -/
def Notice.of (f : Failure) : Notice := ⟨f.kind, f.message⟩

/-- What a user sees of an audit at one moment. -/
structure Snapshot where
  phase : Phase
  report : Option Report := none
  notice : Option Notice := none
  deriving DecidableEq, Repr, Inhabited

namespace Snapshot

/-- Nothing has been analyzed. -/
def idle : Snapshot := { phase := .idle }

/-- An analysis runs; the last report stays in sight. -/
def loading (s : Snapshot) : Snapshot := { phase := .loading, report := s.report }

/-- An analysis has given a report. -/
def success (r : Report) : Snapshot := { phase := .success, report := some r }

/-- An analysis has failed; the last report stays in sight. -/
def failed (s : Snapshot) (f : Failure) : Snapshot :=
  { phase := .failure, report := s.report, notice := some (.of f) }

/-- Whether a run is going on. -/
def isLoading (s : Snapshot) : Bool := s.phase = .loading

/-- The groups of the report. -/
def groups? (s : Snapshot) : Option Groups := s.report.map (·.groups)

/-- The figures of the report. -/
def compliance? (s : Snapshot) : Option Compliance := s.report.map (·.compliance)

/-- The tallies of the report. -/
def frequency? (s : Snapshot) : Option (List Tally) := s.report.map (·.frequency)

/-- Why the last analysis failed. -/
def message? (s : Snapshot) : Option String := s.notice.map (·.message)

/-- The members of a snapshot's JSON; what it does not have is left out. -/
def members (s : Snapshot) : List (String × Value) :=
  [("phase", .string s.phase.key)] ++
    optionalMember "report" Report.toValue s.report ++
    optionalMember "failure"
      (fun n => .object [("kind", .string n.kind.key), ("message", .string n.message)]) s.notice

/-- A snapshot as an object. -/
def toValue (s : Snapshot) : Value := .object s.members

end Snapshot

end PlcAudit
