import PlcAudit.Proofs.Session.Runs

/-!
# What an engine is asked

An engine sees a request when its analysis is called for, and that may be long after the run was
started: the preparation comes first and takes its time.  Meanwhile a new policy may be set.  The
request is nevertheless the one that the trigger has made, out of the input at that moment, and the
new policy is for the next run.

As everywhere in these files the input is read off the record and not off the state: the source is
the one that was loaded last, the policy the one that was set last, both after the last reset.

* `policySent`, `requestOf?`: what a record has an engine asked.
* `Session.request?_eq`: what a session would ask is what its record has asked.
* `PendingRequest`: the request of the run that is pending on a record, with `Session.keepsRun`: it
  is the one that the session keeps.
* `Session.Move.asks`: where a request comes from that a step shows the engine.
* `Session.engine_sees_input_at_trigger`: the main statement.
-/

namespace PlcAudit

/-! ## The request on record -/

/-- The policy that a record has an engine sent: the text that was set last after the last reset,
as it is, and the empty text if there is none or nothing but blanks in it. -/
def policySent (h : List (Step × Outcome)) : String :=
  match policySet? h with
  | some (some p) => if Text.isBlankText p then "" else p
  | _ => ""

/-- What a record has an engine asked: the text and the name of the source that was loaded last
after the last reset, and the policy. -/
def requestOf? (h : List (Step × Outcome)) : Option Request :=
  (loadedSource? h).map fun f => { source := f.text, policy := policySent h, fileName := f.name }

namespace Session

/-- A session sends the policy that is on its record. -/
theorem HoldsInput.policySent_eq {s : Session} {h : List (Step × Outcome)} (hi : s.HoldsInput h) :
    s.policy.getD "" = policySent h := by
  rw [hi.policy, policySent]
  rcases policySet? h with _ | _ | p
  · rfl
  · rfl
  · rw [Option.bind_some, effectivePolicy, Option.filter_some]
    by_cases hblank : Text.isBlankText p <;> simp [hblank]

/-- **What a session would ask is what its record has asked.**  The name of a source is never the
empty one, so that no placeholder is put in its place. -/
theorem request?_eq {s : Session} {h : List (Step × Outcome)} (hi : s.HoldsInput h) {q : Request}
    (hq : s.request? = some q) : requestOf? h = some q := by
  unfold request? at hq
  cases hs : s.source with
  | none =>
    rw [hs] at hq
    cases hq
  | some f =>
    have hname : (some f.name).filter (· ≠ "") = some f.name := by
      simp [f.name_ne_empty]
    simp only [hs] at hq
    split at hq
    · cases hq
    · rw [requestOf?, ← hi.source, hs, ← hi.policySent_eq, ← Option.some.inj hq, Request.of, hname]
      rfl

end Session

/-! ## The pending request -/

/-- The run that is pending at the end of a record: the last trigger on it that was not refused has
started a run that has not ended yet and waits for its stage, and it asks what the record had asked
at that moment. -/
def IsPendingOn (h : List (Step × Outcome)) (run : Run) : Prop :=
  ∃ earlier trigger during, h = earlier ++ trigger :: during ∧
    (∀ y ∈ during, y.1.startsRun y.2.answer = false) ∧
    standing? (trigger :: during) = some (.waits run.stage) ∧ requestOf? earlier = some run.request

/-- The request of the run that is pending at the end of a record. -/
def PendingRequest (h : List (Step × Outcome)) (q : Request) : Prop :=
  ∃ run, IsPendingOn h run ∧ run.request = q

/-- A trigger whose run waits makes the request of its moment the pending one. -/
theorem isPendingOn_of_trigger {h : List (Step × Outcome)} {t : Turn} {o : Outcome} {run : Run}
    (hstarts : (Step.analyze t).startsRun o.answer = true)
    (hwaits : Advance.ofTurn .preparing t = .waits run.stage)
    (hq : requestOf? h = some run.request) : IsPendingOn (h ++ [(.analyze t, o)]) run := by
  refine ⟨h, _, [], rfl, fun y hy => absurd hy List.not_mem_nil, ?_, hq⟩
  rw [standing?_of_startsRun hstarts, hwaits]
  rfl

/-- An entry that does not start a run moves the pending one on. -/
theorem IsPendingOn.concat {h : List (Step × Outcome)} {x : Step × Outcome} {run : Run}
    {stage : Stage} (hrun : IsPendingOn h run) (hstarts : x.1.startsRun x.2.answer = false)
    (hwaits : Advance.ofStep run.stage x.1 = .waits stage) :
    IsPendingOn (h ++ [x]) ⟨run.request, stage⟩ := by
  obtain ⟨earlier, trigger, during, rfl, hothers, hstanding, hrequest⟩ := hrun
  refine ⟨earlier, trigger, during ++ [x], by simp, ?_, ?_, hrequest⟩
  · rw [List.forall_mem_append, List.forall_mem_singleton]
    exact ⟨hothers, hstarts⟩
  · rw [← List.cons_append, standing?_append (List.cons_ne_nil _ _), hstanding, Option.bind_some,
      List.map_singleton, Advance.through?_waits_cons, hwaits, Advance.through?_nil]

namespace Session

/-- A session whose pending run, if there is one, is the one on record. -/
def KeepsRun (s : Session) (h : List (Step × Outcome)) : Prop :=
  ∀ run, s.pending = some run → IsPendingOn h run

/-- **Every step keeps the pending run.** -/
theorem RunMove.keepsRun {s : Session} {h : List (Step × Outcome)} {a : Step}
    {e : Session × Outcome} (hm : s.RunMove a e) (hi : s.HoldsInput h) (hk : s.KeepsRun h) :
    e.1.KeepsRun (h ++ [(a, e.2)]) := by
  intro run hrun
  cases hm with
  | free _ _ hp' => cases hp'.symm.trans hrun
  | started hp hq hstarts hr =>
    obtain ⟨stage, hawaits, rfl⟩ := Option.map_eq_some_iff.mp (hr.pending.symm.trans hrun)
    exact isPendingOn_of_trigger hstarts (Advance.eq_waits_of_awaited? hawaits) (request?_eq hi hq)
  | advanced hp hstarts _ hr =>
    obtain ⟨stage, hawaits, rfl⟩ := Option.map_eq_some_iff.mp (hr.pending.symm.trans hrun)
    exact (hk _ hp).concat hstarts (Advance.eq_waits_of_awaited? hawaits)

/-- **A pending run asks what its trigger has made,** whatever has been set since. -/
theorem keepsRun (as : List Step) : (start.run as).1.KeepsRun (start.history as) := by
  refine (record_induction (P := fun s h => s.HoldsInput h ∧ s.KeepsRun h) ?_ ?_ as).2
  · exact ⟨⟨rfl, rfl⟩, fun run hrun => by cases hrun⟩
  · rintro s h a hs ⟨hi, hk⟩
    have hm := s.step_move a
    exact ⟨hm.holdsInput hi, (hm.runMove hs).keepsRun hi hk⟩

/-! ## What a step shows the engine -/

/-- Asking a run makes the calls that it enters and no others. -/
theorem calls_settle (s : Session) (request : Request) (calls : List Call) (v : Advance) :
    (s.settle request calls v).2.calls = calls := by
  rcases v with _ | (_ | _) | _ | _ <;> rfl

/-- A run calls for the analysis with its own request. -/
theorem eq_of_mem_callsEntered {stage : Stage} {t : Turn} {request q : Request}
    (h : Call.analyze q ∈ callsEntered stage t request) : q = request := by
  unfold callsEntered at h
  split at h
  · exact Call.analyze.inj (List.mem_singleton.mp h)
  · cases h

/-- **Where a request comes from that a step shows the engine.**  Either the step is a trigger, and
has made the request itself, or it asks the pending run, and the request is that of the run. -/
theorem Move.asks {s : Session} {a : Step} {e : Session × Outcome} (hm : s.Move a e) {q : Request}
    (hq : Call.analyze q ∈ e.2.calls) :
    a.startsRun e.2.answer = true ∧ s.request? = some q ∨
      ∃ run, s.pending = some run ∧ run.request = q := by
  cases hm with
  | refused | loaded | reset | policySet | dropped | idle => cases hq
  | started hr hl =>
    rw [startRun_eq] at hq ⊢
    refine Or.inl ⟨startsRun_settle .., ?_⟩
    simp only [calls_settle, List.mem_cons, reduceCtorEq, false_or] at hq
    rw [eq_of_mem_callsEntered hq]
    exact hr
  | resumed hp =>
    rw [askAgain_eq, calls_settle] at hq
    exact Or.inr ⟨_, hp, (eq_of_mem_callsEntered hq).symm⟩

/-- **An engine sees the input at the trigger.**  Whatever is done with a session and whatever its
engine does, every request that the engine sees is the one that the record had asked when the run
was triggered: the text and the name of the source that was loaded last after the last reset, and
the policy that was set last after it, as it is, or the empty text if there was none or a blank one.
Either the trigger is the very step in which the engine sees the request, or the run has been
pending since, and nothing that was set meanwhile counts. -/
theorem engine_sees_input_at_trigger (as : List Step) (before after : List (Step × Outcome))
    (x : Step × Outcome) (hsplit : start.history as = before ++ x :: after) (q : Request)
    (hq : Call.analyze q ∈ x.2.calls) :
    x.1.startsRun x.2.answer = true ∧ requestOf? before = some q ∨ PendingRequest before q := by
  obtain ⟨bs, a, rfl, rfl⟩ := history_eq_append_cons hsplit
  rcases ((start.run bs).1.step_move a).asks hq with ⟨hstarts, hrequest⟩ | ⟨run, hp, rfl⟩
  · exact Or.inl ⟨hstarts, request?_eq (holdsInput bs) hrequest⟩
  · exact Or.inr ⟨run, keepsRun bs run hp, rfl⟩

/-- A policy that is set while the preparation stalls is not the one that the engine sees when the
preparation is done, but the one that the next run would send. -/
theorem pending_run_keeps_policy_of_trigger :
    let before := start.history [.load ⟨"m.st", "A", rfl⟩, .setPolicy (some " p "),
      .analyze ⟨.pending, .pending⟩, .setPolicy (some "q")]
    let request : Request := { source := "A", policy := " p ", fileName := "m.st" }
    PendingRequest before request ∧
      requestOf? before = some { source := "A", policy := "q", fileName := "m.st" } := by
  intro before request
  let ready : Step := .resume ⟨.answered (.ok ()), .pending⟩
  have hsplit : start.history [.load ⟨"m.st", "A", rfl⟩, .setPolicy (some " p "),
      .analyze ⟨.pending, .pending⟩, .setPolicy (some "q"), ready] =
      before ++ (ready, { answer := .pending, calls := [.analyze request] }) :: [] := rfl
  refine ⟨?_, rfl⟩
  rcases engine_sees_input_at_trigger _ _ _ _ hsplit request (List.mem_singleton.mpr rfl) with
    ⟨hstarts, -⟩ | hpending
  · cases hstarts
  · exact hpending

end Session

end PlcAudit
