import PlcAudit.Proofs.Session.Moves

/-!
# What each phase carries

A session shows that it is loading while it waits for a run, and each phase that it shows carries
some things and not others.  The phase is set by one step and cleared by another, and between them
the run may stall, fail, break down or be dropped, so the invariant has to tie what is shown to
whether the session waits.

* `Snapshot.WellFormed`: what each phase may carry.
* `Session.WellFormed`: the invariant, kept by every step (`Move.wellFormed`).
* `Session.history`: the record of a session.
* `WellFormed.run`, `WellFormed.published`: what holds after any steps, and of all snapshots on
  record.
-/

namespace PlcAudit

/-! ## What a snapshot may carry -/

/-- The kinds of failure that a run can end with.  Missing input and a busy session are answers to
a trigger and never the end of a run. -/
def FailureKind.endRuns : List FailureKind :=
  [.engineUnavailable, .engineThrew, .malformedOutput, .abandoned]

/-- What each phase carries: nothing when idle, no notice while loading, a report alone after a
success, and after a failure a notice of a kind that runs end with. -/
def Snapshot.WellFormed (s : Snapshot) : Prop :=
  match s.phase with
  | .idle => s.report = none ∧ s.notice = none
  | .loading => s.notice = none
  | .success => s.report.isSome ∧ s.notice = none
  | .failure => ∃ n, s.notice = some n ∧ n.kind ∈ FailureKind.endRuns

namespace Snapshot

theorem wellFormed_idle : idle.WellFormed := ⟨rfl, rfl⟩

theorem wellFormed_loading (s : Snapshot) : s.loading.WellFormed := rfl

theorem wellFormed_success (r : Report) : (success r).WellFormed := ⟨rfl, rfl⟩

theorem wellFormed_failed (s : Snapshot) {f : Failure} (h : f.kind ∈ FailureKind.endRuns) :
    (s.failed f).WellFormed := ⟨.of f, rfl, h⟩

theorem isLoading_eq_false_iff (s : Snapshot) : s.isLoading = false ↔ s.phase ≠ .loading := by
  simp [isLoading]

end Snapshot

/-! ## How a run may fail -/

/-- The only failure of an output is that it is malformed. -/
theorem Report.kind_of_ofOutput_error {output : String} {f : Failure}
    (h : Report.ofOutput output = .error f) : f.kind = .malformedOutput := by
  unfold Report.ofOutput parseOutput at h
  cases he : entriesOf output with
  | ok es =>
    rw [he] at h
    cases h
  | error fault =>
    rw [he] at h
    cases h
    rfl

/-- A run that the analysis ends badly ends with a kind of failure that runs end with. -/
theorem Advance.kind_of_ofAnalysis {reply : Reply String} {f : Failure}
    (h : ofAnalysis reply = ends (.error f)) : f.kind ∈ FailureKind.endRuns := by
  rcases reply with _ | (fault | output) | m
  · cases h
  · cases h
    cases fault <;> simp [Failure.ofEngineFault, Failure.kind, FailureKind.endRuns]
  · have hf : Report.ofOutput output = .error f := by
      unfold ofAnalysis at h
      exact Advance.ends.inj h
    rw [Report.kind_of_ofOutput_error hf]
    simp [FailureKind.endRuns]
  · cases h

/-- So does a run that any turn ends badly. -/
theorem Advance.kind_of_ofTurn {stage : Stage} {t : Turn} {f : Failure}
    (h : ofTurn stage t = ends (.error f)) : f.kind ∈ FailureKind.endRuns := by
  obtain ⟨preparation, analysis⟩ := t
  cases stage with
  | analyzing => exact kind_of_ofAnalysis h
  | preparing =>
    rcases preparation with _ | (fault | _) | m
    · cases h
    · cases h
      simp [Failure.kind, FailureKind.endRuns]
    · exact kind_of_ofAnalysis h
    · cases h

namespace Session

/-! ## The invariant -/

/-- **The invariant.**  A session shows that it is loading exactly while a run is pending, and what
it shows is well formed. -/
structure WellFormed (s : Session) : Prop where
  loading_iff : s.snapshot.phase = .loading ↔ s.pending.isSome
  snapshot : s.snapshot.WellFormed

theorem wellFormed_start : start.WellFormed where
  loading_iff := by simp [start, Snapshot.idle]
  snapshot := Snapshot.wellFormed_idle

/-- A session that is not loading has no run pending. -/
theorem WellFormed.pending_eq_none {s : Session} (hs : s.WellFormed)
    (h : s.snapshot.isLoading = false) : s.pending = none := by
  rw [Snapshot.isLoading_eq_false_iff, Ne, hs.loading_iff] at h
  simpa using h

/-- Ending a run with a snapshot of any other phase leaves nothing pending. -/
theorem wellFormed_finish (s : Session) (answer : Answer) {p : Snapshot} (calls : List Call)
    (hp : p.phase ≠ .loading) (hw : p.WellFormed) : (s.finish answer p calls).1.WellFormed where
  loading_iff := by simp [finish, hp]
  snapshot := hw

theorem wellFormed_abandon (s : Session) (answer : Answer) (calls : List Call) :
    (s.abandon answer calls).1.WellFormed :=
  s.wellFormed_finish answer calls (by simp [Snapshot.failed])
    (s.snapshot.wellFormed_failed (by simp [Failure.kind, FailureKind.endRuns]))

/-- **Asking a run keeps the invariant.**  All that is needed of the session is that it shows a well
formed loading snapshot: a run that is being started is not pending yet. -/
theorem wellFormed_settle {s : Session} (hl : s.snapshot.phase = .loading)
    (hw : s.snapshot.WellFormed) (request : Request) (calls : List Call) (stage : Stage)
    (t : Turn) : (s.settle request calls (.ofTurn stage t)).1.WellFormed := by
  cases h : Advance.ofTurn stage t with
  | waits next => exact ⟨by simp [settle, wait, hl], hw⟩
  | ends result =>
    cases result with
    | ok r =>
      exact s.wellFormed_finish _ calls (by simp [Snapshot.success]) (Snapshot.wellFormed_success r)
    | error f =>
      exact s.wellFormed_finish _ calls (by simp [Snapshot.failed])
        (s.snapshot.wellFormed_failed (Advance.kind_of_ofTurn h))
  | breaks m => exact s.wellFormed_abandon (.panicked m) calls
  | dropped => exact s.wellFormed_abandon .done calls

/-- A pending run means that a well formed session shows a loading snapshot. -/
theorem WellFormed.phase_of_pending {s : Session} (hs : s.WellFormed) {run : Run}
    (h : s.pending = some run) : s.snapshot.phase = .loading := by
  rw [hs.loading_iff, h]
  rfl

/-- **Every step keeps the invariant.** -/
theorem Move.wellFormed {s : Session} {a : Step} {r : Session × Outcome} (hm : s.Move a r)
    (hs : s.WellFormed) : r.1.WellFormed := by
  cases hm with
  | refused h => exact hs
  | loaded h =>
    exact ⟨by simp [restart, Snapshot.idle, hs.pending_eq_none h], Snapshot.wellFormed_idle⟩
  | reset h =>
    exact ⟨by simp [restart, Snapshot.idle, hs.pending_eq_none h], Snapshot.wellFormed_idle⟩
  | policySet => exact ⟨hs.loading_iff, hs.snapshot⟩
  | started hr h =>
    rw [startRun_eq]
    exact wellFormed_settle rfl s.snapshot.wellFormed_loading _ _ _ _
  | resumed h =>
    rw [askAgain_eq]
    exact wellFormed_settle (hs.phase_of_pending h) hs.snapshot _ _ _ _
  | dropped h => exact s.wellFormed_abandon .done []
  | idle ha h => exact hs

/-! ## What is published -/

/-- What the asking of a run publishes: nothing, or the snapshot it leaves on view. -/
theorem published_settle (s : Session) (request : Request) (calls : List Call) (v : Advance) :
    (s.settle request calls v).2.published = [] ∨
      (s.settle request calls v).2.published = [(s.settle request calls v).1.snapshot] := by
  rcases v with _ | (_ | _) | _ | _
  · exact Or.inl rfl
  all_goals exact Or.inr rfl

/-- **Every snapshot that a step publishes is well formed,** those included that a later one of the
same step replaces. -/
theorem Move.wellFormed_published {s : Session} {a : Step} {r : Session × Outcome}
    (hm : s.Move a r) (hs : s.WellFormed) : ∀ p ∈ r.2.published, p.WellFormed := by
  have hr := hm.wellFormed hs
  cases hm with
  | refused | policySet | idle => simp [refuse]
  | loaded | reset => simpa [restart] using Snapshot.wellFormed_idle
  | started hq h =>
    rw [startRun_eq] at hr ⊢
    intro p hp
    rcases List.mem_cons.mp hp with rfl | hp
    · exact s.snapshot.wellFormed_loading
    · rcases published_settle s.atLoading _ _ _ with h₀ | h₁
      · rw [h₀] at hp
        simp at hp
      · rw [h₁, List.mem_singleton] at hp
        exact hp ▸ hr.snapshot
  | resumed h =>
    rw [askAgain_eq] at hr ⊢
    intro p hp
    rcases published_settle s _ _ _ with h₀ | h₁
    · rw [h₀] at hp
      simp at hp
    · rw [h₁, List.mem_singleton] at hp
      exact hp ▸ hr.snapshot
  | dropped h =>
    intro p hp
    rw [show p = s.snapshot.failed .abandoned by simpa [abandon, finish] using hp]
    exact s.snapshot.wellFormed_failed (by simp [Failure.kind, FailureKind.endRuns])

/-! ## Whole runs -/

/-- The record of a session: its steps with what came of them. -/
def history (s : Session) (as : List Step) : List (Step × Outcome) := as.zip (s.run as).2

@[simp] theorem history_nil (s : Session) : s.history [] = [] := rfl

@[simp] theorem history_cons (s : Session) (a : Step) (as : List Step) :
    s.history (a :: as) = (a, (s.step a).2) :: (s.step a).1.history as := rfl

/-- **Every sequence of steps keeps the invariant.** -/
theorem WellFormed.run {s : Session} (hs : s.WellFormed) (as : List Step) :
    (s.run as).1.WellFormed := by
  induction as generalizing s with
  | nil => exact hs
  | cons a as ih => exact ih ((s.step_move a).wellFormed hs)

/-- All snapshots on the record of a well formed session are well formed. -/
theorem WellFormed.published {s : Session} (hs : s.WellFormed) (as : List Step) :
    ∀ x ∈ s.history as, ∀ p ∈ x.2.published, p.WellFormed := by
  induction as generalizing s with
  | nil => simp
  | cons a as ih =>
    intro x hx
    have hm := s.step_move a
    rcases List.mem_cons.mp hx with rfl | hx
    · exact hm.wellFormed_published hs
    · exact ih (hm.wellFormed hs) x hx

end Session

end PlcAudit
