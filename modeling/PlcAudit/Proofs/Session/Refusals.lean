import PlcAudit.Proofs.Session.Runs

/-!
# Refused steps

A session refuses to take a new source, to be reset or to start a run at the wrong moment.  Whoever
is refused must be able to rely on two things: that the reason is the true one, and that asking did
no harm.

The reason is decided by two checks in a fixed order, the missing input before the run on its way.
That a run on its way is never reported as missing input is therefore not a matter of the checks
alone.  It holds because nothing can take the source away from under a run: what would do so is
refused itself.  The invariant that says this is `Session.RunHasInput`.

That asking does no harm is said of whole records: strike out all refused steps, do the others from
the beginning, and the record is the old one without the refused entries.

* `Session.refused_iff`: a step is refused for exactly the reason that `refusal?` gives.
* `Session.runHasInput`: while a run is pending there is a text to analyze.
* `Session.RefusesAsDue`: which steps are refused when, in the words of the record.
* `Session.acceptedSteps`, `notRefused`: steps and entries without the refused ones.
* `Session.refusals_leave_no_trace`: the main statement.
-/

namespace PlcAudit

/-! ## Refusals -/

/-- Whether an answer is a refusal. -/
def Answer.isRefusal : Answer → Bool
  | .refused _ => true
  | _ => false

namespace Session

/-- A run that was asked is not refused. -/
theorem not_isRefusal_settle (s : Session) (request : Request) (calls : List Call) (v : Advance) :
    (s.settle request calls v).2.answer.isRefusal = false := by
  rcases v with _ | (_ | _) | _ | _ <;> rfl

/-- A step that has a reason to be refused is refused, and one that is answered with a refusal had
that reason.  In either case nothing else has happened. -/
theorem Move.eq_refuse_or {s : Session} {a : Step} {r : Session × Outcome} (hm : s.Move a r) :
    (∃ f, s.refusal? a = some f ∧ r = s.refuse f) ∨
      s.refusal? a = none ∧ r.2.answer.isRefusal = false := by
  cases hm with
  | refused hr => exact Or.inl ⟨_, hr, rfl⟩
  | loaded hl => exact Or.inr ⟨by simp [refusal?, hl], rfl⟩
  | reset hl => exact Or.inr ⟨by simp [refusal?, hl], rfl⟩
  | policySet => exact Or.inr ⟨rfl, rfl⟩
  | started hq hl =>
    rw [startRun_eq]
    exact Or.inr ⟨by simp [refusal?, hq, hl], s.atLoading.not_isRefusal_settle _ _ _⟩
  | resumed hp =>
    rw [askAgain_eq]
    exact Or.inr ⟨rfl, s.not_isRefusal_settle _ _ _⟩
  | dropped hp => exact Or.inr ⟨rfl, rfl⟩
  | idle ha hp => rcases ha with rfl | ⟨t, rfl⟩ <;> exact Or.inr ⟨rfl, rfl⟩

/-- **A step is refused for exactly the reason that there is.** -/
theorem refused_iff (s : Session) (a : Step) (f : Failure) :
    (s.step a).2.answer = .refused f ↔ s.refusal? a = some f := by
  rcases (s.step_move a).eq_refuse_or with ⟨f', hr, hstep⟩ | ⟨hr, hanswer⟩
  · rw [hstep, hr, refuse, Answer.refused.injEq, Option.some.injEq]
  · rw [hr]
    constructor
    · intro h
      rw [h] at hanswer
      cases hanswer
    · intro h
      cases h

/-- **A refused step does nothing.** -/
theorem step_eq_refuse {s : Session} {a : Step}
    (h : (s.step a).2.answer.isRefusal = true) : ∃ f, s.step a = s.refuse f := by
  rcases (s.step_move a).eq_refuse_or with ⟨f, -, hstep⟩ | ⟨-, hanswer⟩
  · exact ⟨f, hstep⟩
  · rw [h] at hanswer
    cases hanswer

/-! ## Runs and their input -/

/-- There is something to ask exactly when there is a source with some text. -/
theorem request?_isSome_iff (s : Session) :
    s.request?.isSome ↔ ∃ f, s.source = some f ∧ f.text ≠ "" := by
  unfold request?
  cases s.source with
  | none => simp
  | some f => simp [Source.isEmpty]

/-- While a run is pending there is something to ask. -/
def RunHasInput (s : Session) : Prop := s.pending.isSome → s.request?.isSome

/-- The asking of a run leaves what there is to ask. -/
theorem request?_settle (s : Session) (request : Request) (calls : List Call) (v : Advance) :
    (s.settle request calls v).1.request? = s.request? := by
  rcases v with _ | (_ | _) | _ | _ <;> rfl

/-- **No step takes the input away from under a run.** -/
theorem Move.runHasInput {s : Session} {a : Step} {r : Session × Outcome} (hm : s.Move a r)
    (hs : s.WellFormed) (hi : s.RunHasInput) : r.1.RunHasInput := by
  cases hm with
  | refused hr => exact hi
  | loaded hl | reset hl =>
    intro hp
    rw [restart, hs.pending_eq_none hl] at hp
    cases hp
  | policySet =>
    intro hp
    rw [request?_isSome_iff]
    exact s.request?_isSome_iff.mp (hi hp)
  | started hq hl =>
    intro _
    rw [startRun_eq, request?_settle]
    exact Option.isSome_of_eq_some hq
  | resumed hp =>
    intro _
    rw [askAgain_eq, request?_settle]
    exact hi (Option.isSome_of_eq_some hp)
  | dropped hp =>
    intro hnone
    cases hnone
  | idle ha hp => exact hi

/-- **A session that waits for a run has a text to analyze.** -/
theorem runHasInput (as : List Step) : (start.run as).1.RunHasInput :=
  record_induction (P := fun s _ => s.RunHasInput) (fun hp => by cases hp)
    (fun s _ a hs hi => (s.step_move a).runHasInput hs hi) as

/-! ## When a session refuses -/

/-- **When a session refuses,** in the words of its record.  A load and a reset are refused exactly
while a run is pending.  A trigger lacks its input exactly when no source is loaded or the one that
is has no text, and comes too early exactly while a run is pending.  The two never meet. -/
structure RefusesAsDue (s : Session) (h : List (Step × Outcome)) : Prop where
  load_busy : ∀ f, (s.step (.load f)).2.answer = .refused .busy ↔ RunPending h
  reset_busy : (s.step .reset).2.answer = .refused .busy ↔ RunPending h
  trigger_lacks_input : ∀ t, (s.step (.analyze t)).2.answer = .refused .inputMissing ↔
    ∀ f, loadedSource? h = some f → f.text = ""
  trigger_busy : ∀ t, (s.step (.analyze t)).2.answer = .refused .busy ↔ RunPending h
  input_of_pending : RunPending h → ∃ f, loadedSource? h = some f ∧ f.text ≠ ""

/-- A well formed session shows that it is loading exactly when it waits for a run. -/
theorem WellFormed.isLoading_iff {s : Session} (hs : s.WellFormed) :
    s.snapshot.isLoading = true ↔ s.pending.isSome := by
  rw [Snapshot.isLoading, decide_eq_true_eq, hs.loading_iff]

theorem refusesAsDue (as : List Step) :
    (start.run as).1.RefusesAsDue (start.history as) := by
  have hs : (start.run as).1.WellFormed := wellFormed_start.run as
  have hinput := runHasInput as
  have hsource := (holdsInput as).source
  have hpending := runPending_iff as
  have hasked := (start.run as).1.request?_isSome_iff
  rw [hsource] at hasked
  have hbusy : (start.run as).1.snapshot.isLoading = true ↔ RunPending (start.history as) :=
    hs.isLoading_iff.trans hpending.symm
  refine ⟨fun f => ?_, ?_, fun t => ?_, fun t => ?_, fun hp => ?_⟩
  · rw [refused_iff, ← hbusy]
    simp [refusal?]
  · rw [refused_iff, ← hbusy]
    simp [refusal?]
  · rw [refused_iff]
    have hmissing : (start.run as).1.refusal? (.analyze t) = some .inputMissing ↔
        ¬ (start.run as).1.request?.isSome := by
      simp only [refusal?]
      cases (start.run as).1.request? <;> simp
    rw [hmissing, hasked]
    simp only [not_exists, not_and, not_not]
  · rw [refused_iff, ← hbusy]
    have hsome : (start.run as).1.snapshot.isLoading = true →
        (start.run as).1.request?.isSome := fun h => hinput (hs.isLoading_iff.mp h)
    simp only [refusal?]
    cases hq : (start.run as).1.request? with
    | none =>
      rw [hq] at hsome
      simpa using hsome
    | some request => simp
  · exact hasked.mp (hinput (hpending.mp hp))

/-! ## Striking out refused steps -/

end Session

/-- The entries of a record whose steps were not refused. -/
def notRefused (h : List (Step × Outcome)) : List (Step × Outcome) :=
  h.filter fun x => !x.2.answer.isRefusal

namespace Session

/-- The steps of a sequence that are not refused when it is carried out. -/
def acceptedSteps (s : Session) (as : List Step) : List Step :=
  (notRefused (s.history as)).map Prod.fst

theorem acceptedSteps_cons_of_refusal {s : Session} {a : Step} (as : List Step)
    (h : (s.step a).2.answer.isRefusal = true) : s.acceptedSteps (a :: as) = s.acceptedSteps as := by
  obtain ⟨f, hstep⟩ := step_eq_refuse h
  rw [acceptedSteps, history_cons, notRefused, List.filter_cons_of_neg (by simp [h]), hstep]
  rfl

theorem acceptedSteps_cons {s : Session} {a : Step} (as : List Step)
    (h : (s.step a).2.answer.isRefusal = false) :
    s.acceptedSteps (a :: as) = a :: (s.step a).1.acceptedSteps as := by
  rw [acceptedSteps, history_cons, notRefused, List.filter_cons_of_pos (by simp [h])]
  rfl

/-- **Without the refused steps everything else goes the same way.** -/
theorem run_acceptedSteps (s : Session) (as : List Step) :
    s.history (s.acceptedSteps as) = notRefused (s.history as) ∧
      (s.run (s.acceptedSteps as)).1 = (s.run as).1 := by
  induction as generalizing s with
  | nil => exact ⟨rfl, rfl⟩
  | cons a as ih =>
    cases h : (s.step a).2.answer.isRefusal with
    | true =>
      obtain ⟨f, hstep⟩ := step_eq_refuse h
      rw [acceptedSteps_cons_of_refusal as h, history_cons, run_cons, notRefused,
        List.filter_cons_of_neg (by simp [h]), hstep]
      exact ih s
    | false =>
      obtain ⟨hhistory, hrun⟩ := ih (s.step a).1
      rw [acceptedSteps_cons as h, history_cons, history_cons, run_cons, run_cons, hhistory, hrun]
      exact ⟨(List.filter_cons_of_pos (by simp [h])).symm, rfl⟩

/-- A refused entry of a record shows that nothing was published and that the engine was not
called. -/
theorem nothing_done_of_isRefusal {s : Session} {as : List Step} {x : Step × Outcome}
    (hx : x ∈ s.history as) (h : x.2.answer.isRefusal = true) :
    x.2.published = [] ∧ x.2.calls = [] := by
  obtain ⟨before, after, hsplit⟩ := List.append_of_mem hx
  obtain ⟨bs, a, -, rfl⟩ := history_eq_append_cons hsplit
  obtain ⟨f, hstep⟩ := step_eq_refuse h
  rw [hstep]
  exact ⟨rfl, rfl⟩

/-- **Refused steps leave no trace.**  After whatever has been done with a session and whatever its
engine did, it refuses what it must and nothing else; a refused step publishes nothing and does not
call the engine; and all other steps, done again without the refused ones, have the same answers,
publish the same snapshots, make the same calls with the same requests, and lead to the same
state. -/
theorem refusals_leave_no_trace (as : List Step) :
    let s := (start.run as).1
    let h := start.history as
    s.RefusesAsDue h ∧
      (∀ x ∈ h, x.2.answer.isRefusal = true → x.2.published = [] ∧ x.2.calls = []) ∧
      start.history (start.acceptedSteps as) = notRefused h ∧
      (start.run (start.acceptedSteps as)).1 = s := by
  intro s h
  obtain ⟨hhistory, hrun⟩ := start.run_acceptedSteps as
  exact ⟨refusesAsDue as, fun x hx => nothing_done_of_isRefusal hx, hhistory, hrun⟩

end Session

end PlcAudit
