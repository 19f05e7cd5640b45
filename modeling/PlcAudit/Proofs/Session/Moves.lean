import PlcAudit.Session

/-!
# What a step of a session can do

`Session.step` asks an engine through two calls, and each of them may answer, fail, stall or break
down.  For whatever is proved about sessions only a few things matter that can become of a run: it
goes on waiting, it ends with a result, it breaks, or it is dropped.  This file says so once, and
then says what a step can do as a whole, so that no later proof opens `Session.step` again.

What becomes of a run is read off the replies of the engine and the step itself.  Nothing in these
definitions looks at a session, so they can be held against it.

* `Advance`: what becomes of a run, read off the engine's turn by `Advance.ofTurn` and off a whole
  step by `Advance.ofStep`.
* `Advance.through?`: what becomes of a run in several steps.
* `Session.settle`: the session after it; `startRun_eq`, `askAgain_eq` and `abandon_eq` bring the
  ways of asking a run and of dropping it to it.
* `Session.Move`, with `Session.step_move`: the eight kinds of step, guards included.
-/

namespace PlcAudit

/-! ## What becomes of a run -/

/-- What becomes of a run. -/
inductive Advance where
  /-- A call has not answered yet; the run waits for it. -/
  | waits (stage : Stage)
  /-- The run ends with a result. -/
  | ends (result : Except Failure Report)
  /-- The engine breaks down, and the run with it. -/
  | breaks (message : String)
  /-- Nobody waits for the run any longer. -/
  | dropped

namespace Advance

/-- What the reply of the analysis makes of a run. -/
def ofAnalysis : Reply String → Advance
  | .pending => waits .analyzing
  | .answered (.ok output) => ends (Report.ofOutput output)
  | .answered (.error fault) => ends (.error (.ofEngineFault fault))
  | .panicked m => breaks m

/-- What a turn of the engine makes of a run at a stage.  The analysis is called for in the same
turn in which the preparation answers. -/
def ofTurn : Stage → Turn → Advance
  | .analyzing, t => ofAnalysis t.analysis
  | .preparing, t =>
    match t.preparation with
    | .pending => waits .preparing
    | .answered (.ok ()) => ofAnalysis t.analysis
    | .answered (.error fault) => ends (.error (.engineUnavailable fault.message))
    | .panicked m => breaks m

/-- What becomes in a step of a run that waits for a call.  It is asked when it is resumed, and no
other step but a drop bears on it. -/
def ofStep (stage : Stage) : Step → Advance
  | .resume t => ofTurn stage t
  | .drop => dropped
  | .load _ | .setPolicy _ | .reset | .analyze _ => waits stage

/-- The call that the run waits for, if it has not ended. -/
def awaited? : Advance → Option Stage
  | waits stage => some stage
  | ends _ | breaks _ | dropped => none

/-- How the run has ended, if it has.  One that broke down or was dropped is abandoned. -/
def result? : Advance → Option (Except Failure Report)
  | waits _ => none
  | ends result => some result
  | breaks _ | dropped => some (.error .abandoned)

/-- What becomes of a run in several steps, unless it has ended before the last of them. -/
def through? (v : Advance) : List Step → Option Advance
  | [] => some v
  | a :: as => v.awaited?.bind fun stage => (ofStep stage a).through? as

@[simp] theorem through?_nil (v : Advance) : v.through? [] = some v := rfl

theorem through?_append (v : Advance) (as bs : List Step) :
    v.through? (as ++ bs) = (v.through? as).bind (·.through? bs) := by
  induction as generalizing v with
  | nil => rfl
  | cons a as ih =>
    rw [List.cons_append, through?, through?, Option.bind_assoc]
    simp only [ih]

theorem through?_waits_cons (stage : Stage) (a : Step) (as : List Step) :
    (waits stage).through? (a :: as) = (ofStep stage a).through? as := rfl

theorem eq_waits_of_awaited? {v : Advance} {stage : Stage} (h : v.awaited? = some stage) :
    v = waits stage := by
  cases v with
  | waits next => rw [Option.some.inj h]
  | ends | breaks | dropped => cases h

/-- A run that has ended has no further steps. -/
theorem through?_of_ended {v w : Advance} {as : List Step} (hv : v.awaited? = none)
    (h : v.through? as = some w) : as = [] ∧ w = v := by
  cases as with
  | nil => exact ⟨rfl, (Option.some.inj h).symm⟩
  | cons a as =>
    rw [through?, hv] at h
    cases h

end Advance

/-- The calls that a run enters anew in a turn: the analysis, when the preparation it waits for
answers well.  A call that stalled is asked again and not entered again. -/
def callsEntered (stage : Stage) (t : Turn) (request : Request) : List Call :=
  match stage, t.preparation with
  | .preparing, .answered (.ok ()) => [.analyze request]
  | _, _ => []

namespace Session

/-- The session after something has become of its run. -/
def settle (s : Session) (request : Request) (calls : List Call) : Advance → Session × Outcome
  | .waits stage => s.wait ⟨request, stage⟩ calls
  | .ends result => s.conclude result calls
  | .breaks m => s.abandon (.panicked m) calls
  | .dropped => s.abandon .done calls

/-- What is on view while a run is on its way: the report before it, and nothing else. -/
def atLoading (s : Session) : Session := { s with snapshot := s.snapshot.loading }

theorem askAnalysis_eq (s : Session) (request : Request) (t : Turn) (calls : List Call) :
    s.askAnalysis request t calls = s.settle request calls (.ofAnalysis t.analysis) := by
  unfold askAnalysis Advance.ofAnalysis
  rcases t.analysis with _ | (_ | _) | _ <;> rfl

theorem askPreparation_eq (s : Session) (request : Request) (t : Turn) (calls : List Call) :
    s.askPreparation request t calls =
      s.settle request (calls ++ callsEntered .preparing t request) (.ofTurn .preparing t) := by
  obtain ⟨preparation, analysis⟩ := t
  rcases preparation with _ | (_ | _) | _
  · simp only [askPreparation, callsEntered, List.append_nil, Advance.ofTurn, settle]
  · simp only [askPreparation, callsEntered, List.append_nil, Advance.ofTurn, settle]
  · exact askAnalysis_eq s request _ _
  · simp only [askPreparation, callsEntered, List.append_nil, Advance.ofTurn, settle]

/-- **A run that is asked again** enters at most the call that its turn leads to. -/
theorem askAgain_eq (s : Session) (run : Run) (t : Turn) :
    s.askAgain run t =
      s.settle run.request (callsEntered run.stage t run.request) (.ofTurn run.stage t) := by
  unfold askAgain
  cases run.stage with
  | preparing => rw [askPreparation_eq, List.nil_append]
  | analyzing => exact askAnalysis_eq s run.request t []

/-- **A run that is started** shows that it is loading, enters the preparation, and is asked. -/
theorem startRun_eq (s : Session) (request : Request) (t : Turn) :
    s.startRun request t =
      let next := s.atLoading.settle request (.prepare :: callsEntered .preparing t request)
        (.ofTurn .preparing t)
      (next.1, { next.2 with published := s.snapshot.loading :: next.2.published }) := by
  unfold startRun
  simp only [askPreparation_eq, List.singleton_append]
  rfl

/-- A run that is dropped. -/
theorem abandon_eq (s : Session) (request : Request) :
    s.abandon .done [] = s.settle request [] .dropped := rfl

/-! ## Steps -/

/-- Why a step would be refused, if it would.  Missing input is noticed before a run that is on its
way. -/
def refusal? (s : Session) : Step → Option Failure
  | .load _ | .reset => if s.snapshot.isLoading then some .busy else none
  | .analyze _ =>
    if s.request?.isNone then some .inputMissing
    else if s.snapshot.isLoading then some .busy else none
  | .setPolicy _ | .resume _ | .drop => none

/-- What a step can do, with what has to hold before it. -/
inductive Move (s : Session) : Step → Session × Outcome → Prop where
  | refused {a : Step} {f : Failure} (h : s.refusal? a = some f) : Move s a (s.refuse f)
  | loaded {f : Source} (h : s.snapshot.isLoading = false) :
      Move s (.load f) (s.restart (some f) s.policy)
  | reset (h : s.snapshot.isLoading = false) : Move s .reset (s.restart none none)
  | policySet {p : Option String} :
      Move s (.setPolicy p) ({ s with policy := effectivePolicy p }, { answer := .done })
  | started {t : Turn} {request : Request} (hr : s.request? = some request)
      (h : s.snapshot.isLoading = false) : Move s (.analyze t) (s.startRun request t)
  | resumed {t : Turn} {run : Run} (h : s.pending = some run) :
      Move s (.resume t) (s.askAgain run t)
  | dropped {run : Run} (h : s.pending = some run) : Move s .drop (s.abandon .done [])
  | idle {a : Step} (ha : a = .drop ∨ ∃ t, a = .resume t) (h : s.pending = none) :
      Move s a (s, { answer := .noRun })

/-- **Every step is one of these moves.** -/
theorem step_move (s : Session) (a : Step) : s.Move a (s.step a) := by
  cases a with
  | load f =>
    simp only [step]
    split
    · next h => exact .refused (by simp only [refusal?, if_pos h])
    · next h => exact .loaded (by simpa using h)
  | setPolicy p => exact .policySet
  | reset =>
    simp only [step]
    split
    · next h => exact .refused (by simp only [refusal?, if_pos h])
    · next h => exact .reset (by simpa using h)
  | analyze t =>
    simp only [step]
    split
    · next hr => exact .refused (by simp [refusal?, hr])
    · next request hr =>
      split
      · next h => exact .refused (by simp [refusal?, hr, h])
      · next h => exact .started hr (by simpa using h)
  | resume t =>
    simp only [step]
    split
    · next h => exact .idle (.inr ⟨t, rfl⟩) h
    · next run h => exact .resumed h
  | drop =>
    simp only [step]
    split
    · next h => exact .idle (.inl rfl) h
    · next run h => exact .dropped h

end Session

end PlcAudit
