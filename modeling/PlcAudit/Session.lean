import PlcAudit.Request
import PlcAudit.Snapshot
import PlcAudit.Source.Basic
import PlcAudit.Text.Blank

/-!
# Sessions

A session holds a source and a policy, has them analyzed by an engine, and publishes what a user is
to see.  At most one analysis runs at a time.  An engine takes its time: each call of it may have to
be asked several times before it answers, and in between other steps of the session may happen.  It
may also break down, or nobody may wait for it any longer; either way the session publishes that the
analysis was abandoned, so it never goes on loading for nobody.

* `Reply`, `Turn`: what the calls of an engine give when they are asked once.
* `Session`: the state of a session.
* `Step`, `Outcome`: what can be done with one, and what that gives.
* `Session.step`: a step; `Session.run`: a sequence of steps.
-/

namespace PlcAudit

/-! ## Engines -/

/-- What a call of an engine gives when it is asked once. -/
inductive Reply (α : Type) where
  | pending
  | answered (result : Except EngineFault α)
  /-- The engine breaks down. -/
  | panicked (message : String)
  deriving Repr

/-- How an engine meets one turn of a session: what its two calls give when they are asked. -/
structure Turn where
  preparation : Reply Unit
  analysis : Reply String
  deriving Repr

/-- A call of an engine. -/
inductive Call where
  /-- Makes the engine ready; a run does so first. -/
  | prepare
  | analyze (request : Request)
  deriving DecidableEq, Repr

/-! ## States, steps and outcomes -/

/-- Which call a run waits for. -/
inductive Stage where
  | preparing
  | analyzing
  deriving DecidableEq, Repr

/-- A run that has not ended: what it asks, and which call it waits for. -/
structure Run where
  request : Request
  stage : Stage
  deriving DecidableEq, Repr

/-- The state of a session. -/
structure Session where
  source : Option Source := none
  policy : Option String := none
  snapshot : Snapshot := .idle
  pending : Option Run := none
  deriving DecidableEq, Repr

/-- What can be done with a session. -/
inductive Step where
  | load (source : Source)
  | setPolicy (policy : Option String)
  | reset
  /-- Starts a run and asks the engine for the first time. -/
  | analyze (turn : Turn)
  /-- Asks the engine again. -/
  | resume (turn : Turn)
  /-- Stops waiting for the run. -/
  | drop
  deriving Repr

/-- The answer to a step. -/
inductive Answer where
  | done
  | refused (failure : Failure)
  | pending
  | finished (result : Except Failure Report)
  | panicked (message : String)
  /-- There is no run to go on with or to stop waiting for. -/
  | noRun
  deriving Repr

/-- What a step gives: the answer, the snapshots it publishes, and the calls it makes, in order. -/
structure Outcome where
  answer : Answer
  published : List Snapshot := []
  calls : List Call := []
  deriving Repr

namespace Session

/-- A session at its beginning. -/
def start : Session := {}

/-- A policy of blanks only is none. -/
def effectivePolicy (policy : Option String) : Option String :=
  policy.filter fun p => !Text.isBlankText p

/-- What a run would ask.  Input is missing when there is no source, or no text in it. -/
def request? (s : Session) : Option Request :=
  match s.source with
  | some f => if f.isEmpty then none else some (.of f.text s.policy (some f.name))
  | none => none

/-! ## Runs -/

/-- Ends the run with a snapshot. -/
def finish (s : Session) (answer : Answer) (snapshot : Snapshot) (calls : List Call) :
    Session × Outcome :=
  ({ s with snapshot := snapshot, pending := none }, ⟨answer, [snapshot], calls⟩)

/-- Ends the run with a result. -/
def conclude (s : Session) (result : Except Failure Report) (calls : List Call) :
    Session × Outcome :=
  match result with
  | .ok r => s.finish (.finished result) (.success r) calls
  | .error f => s.finish (.finished result) (s.snapshot.failed f) calls

/-- Ends the run without a result. -/
def abandon (s : Session) (answer : Answer) (calls : List Call) : Session × Outcome :=
  s.finish answer (s.snapshot.failed .abandoned) calls

/-- Leaves the run waiting. -/
def wait (s : Session) (run : Run) (calls : List Call) : Session × Outcome :=
  ({ s with pending := some run }, ⟨.pending, [], calls⟩)

/-- Asks the analysis for its answer. -/
def askAnalysis (s : Session) (request : Request) (turn : Turn) (calls : List Call) :
    Session × Outcome :=
  match turn.analysis with
  | .pending => s.wait ⟨request, .analyzing⟩ calls
  | .answered (.ok output) => s.conclude (Report.ofOutput output) calls
  | .answered (.error fault) => s.conclude (.error (.ofEngineFault fault)) calls
  | .panicked m => s.abandon (.panicked m) calls

/-- Asks the preparation for its answer, and when it is ready calls for the analysis.  An engine
that cannot be made ready is unavailable, whatever it says. -/
def askPreparation (s : Session) (request : Request) (turn : Turn) (calls : List Call) :
    Session × Outcome :=
  match turn.preparation with
  | .pending => s.wait ⟨request, .preparing⟩ calls
  | .answered (.ok ()) => s.askAnalysis request turn (calls ++ [.analyze request])
  | .answered (.error fault) => s.conclude (.error (.engineUnavailable fault.message)) calls
  | .panicked m => s.abandon (.panicked m) calls

/-- Starts a run: what is loading is published first. -/
def startRun (s : Session) (request : Request) (turn : Turn) : Session × Outcome :=
  let loading := s.snapshot.loading
  let (s', o) := askPreparation { s with snapshot := loading } request turn [.prepare]
  (s', { o with published := loading :: o.published })

/-- Asks the call that a run waits for. -/
def askAgain (s : Session) (run : Run) (turn : Turn) : Session × Outcome :=
  match run.stage with
  | .preparing => s.askPreparation run.request turn []
  | .analyzing => s.askAnalysis run.request turn []

/-! ## Steps -/

/-- A step that is refused leaves everything as it was. -/
def refuse (s : Session) (f : Failure) : Session × Outcome := (s, { answer := .refused f })

/-- A new input: nothing has been analyzed with it. -/
def restart (s : Session) (source : Option Source) (policy : Option String) : Session × Outcome :=
  ({ s with source := source, policy := policy, snapshot := .idle },
    { answer := .done, published := [.idle] })

/-- One step of a session. -/
def step (s : Session) : Step → Session × Outcome
  | .load f => if s.snapshot.isLoading then s.refuse .busy else s.restart (some f) s.policy
  | .setPolicy p => ({ s with policy := effectivePolicy p }, { answer := .done })
  | .reset => if s.snapshot.isLoading then s.refuse .busy else s.restart none none
  | .analyze turn =>
    match s.request? with
    | none => s.refuse .inputMissing
    | some request => if s.snapshot.isLoading then s.refuse .busy else s.startRun request turn
  | .resume turn =>
    match s.pending with
    | none => (s, { answer := .noRun })
    | some run => s.askAgain run turn
  | .drop =>
    match s.pending with
    | none => (s, { answer := .noRun })
    | some _ => s.abandon .done []

/-- A sequence of steps: the state after them and their outcomes. -/
def run (s : Session) : List Step → Session × List Outcome
  | [] => (s, [])
  | a :: as =>
    let (s', o) := s.step a
    let (s'', os) := s'.run as
    (s'', o :: os)

@[simp] theorem run_nil (s : Session) : s.run [] = (s, []) := rfl

@[simp] theorem run_cons (s : Session) (a : Step) (as : List Step) :
    s.run (a :: as) = (((s.step a).1.run as).1, (s.step a).2 :: ((s.step a).1.run as).2) := rfl

/-- Steps after steps. -/
theorem run_append (s : Session) (as bs : List Step) :
    s.run (as ++ bs) = (((s.run as).1.run bs).1, (s.run as).2 ++ ((s.run as).1.run bs).2) := by
  induction as generalizing s with
  | nil => rfl
  | cons a as ih => simp [ih]

end Session

end PlcAudit
