import PlcAudit.Proofs.Session.Record

/-!
# The report on view

A report stays on view while a later run is on its way and after it fails, and goes when the input
is replaced.  It is handed on from snapshot to snapshot: the loading one takes it over, the one of a
failure takes it from there, and so does the one of a run that breaks down or is dropped.  At each of
these places it could get lost, or an old one could come back, and the state alone would not show it.
So the statement is about the record: **the report on view is the one of the newest output that
brought a report since the input was last replaced.**

With regard to reports a step can do one of three things, and `Session.ReportMove` says which.  It
clears what is shown, or it brings a new report, or it keeps the old one in everything it publishes.

* `Step.output?`: the output from which an entry of a record has brought a report.
* `outputOnView?`: the output that a record has on view.
* `Session.ReportMove`, with `Move.reportMove`: what a step does to the report.
* `Session.report_follows_record`: the state agrees with the record.
* `Session.report_is_newest_since_restart`: the main statement.
-/

namespace PlcAudit

/-! ## The output on record -/

/-- The output with which the engine answers when it is asked for the analysis. -/
def Reply.output? : Reply String → Option String
  | .answered (.ok output) => some output
  | _ => none

/-- The output from which a step has brought a report. -/
def Step.output? : Step → Answer → Option String
  | .analyze t, .finished (.ok _) => t.analysis.output?
  | .resume t, .finished (.ok _) => t.analysis.output?
  | _, _ => none

/-- The output whose report is on view, as a record has it: the last one from which a report was
brought since the input was last replaced. -/
def outputOnView? : List (Step × Outcome) → Option String :=
  newest? (fun x => x.1.restarts x.2.answer) fun x => x.1.output? x.2.answer

/-- No output that stands before a replacement of the input is on view. -/
theorem outputOnView?_append_cons {x : Step × Outcome} (hx : x.1.restarts x.2.answer = true)
    (before after : List (Step × Outcome)) :
    outputOnView? (before ++ x :: after) = outputOnView? after :=
  newest?_append_cons (x := x) hx before after

/-- Only a step that has finished a run well has brought a report. -/
theorem Step.output?_eq_none {a : Step} {answer : Answer}
    (h : ∀ r, answer ≠ .finished (.ok r)) : a.output? answer = none := by
  rcases answer with _ | _ | _ | (_ | r) | _ | _
  case finished.ok => exact absurd rfl (h r)
  all_goals cases a <;> rfl

/-- A run that ends well does so with the report of the output that the engine has just given. -/
theorem Advance.output_of_ofTurn {stage : Stage} {t : Turn} {r : Report}
    (h : ofTurn stage t = ends (.ok r)) :
    ∃ output, t.analysis.output? = some output ∧ Report.ofOutput output = .ok r := by
  have hanalysis : ofAnalysis t.analysis = ends (.ok r) := by
    cases stage with
    | analyzing => exact h
    | preparing =>
      obtain ⟨preparation, analysis⟩ := t
      rcases preparation with _ | (_ | _) | _
      · cases h
      · cases h
      · exact h
      · cases h
  rcases hreply : t.analysis with _ | (fault | output) | m
  · rw [hreply] at hanalysis
    cases hanalysis
  · rw [hreply] at hanalysis
    cases hanalysis
  · rw [hreply] at hanalysis
    exact ⟨output, rfl, Advance.ends.inj hanalysis⟩
  · rw [hreply] at hanalysis
    cases hanalysis

namespace Session

/-! ## What a step does to the report -/

/-- **What a step does to the report.**  It is told of everything that the step lets be seen, the
snapshots it publishes and the one it leaves on view. -/
inductive ReportMove (s : Session) (a : Step) (e : Session × Outcome) : Prop where
  /-- The input is replaced, and nothing is shown any longer. -/
  | cleared (ha : a.restarts e.2.answer = true)
      (hshown : ∀ p ∈ e.1.snapshot :: e.2.published, p.report = none)
  /-- A run has ended well.  Until then the old report was shown. -/
  | brought {output : String} {r : Report} (ha : a.restarts e.2.answer = false)
      (hanswer : e.2.answer = .finished (.ok r)) (houtput : a.output? e.2.answer = some output)
      (hreport : Report.ofOutput output = .ok r) (hview : e.1.snapshot.report = some r)
      (hshown : ∀ p ∈ e.2.published, p.report = s.snapshot.report ∨ p.report = some r)
  /-- Anything else leaves the report as it was. -/
  | kept (ha : a.restarts e.2.answer = false) (hanswer : ∀ r, e.2.answer ≠ .finished (.ok r))
      (hshown : ∀ p ∈ e.1.snapshot :: e.2.published, p.report = s.snapshot.report)

/-- What the asking of a run lets be seen: the new report if there is one, and otherwise the old. -/
theorem shown_settle (s : Session) (request : Request) (calls : List Call) (v : Advance) :
    let e := s.settle request calls v
    (∃ r, v = .ends (.ok r) ∧ e.2.answer = .finished (.ok r) ∧
        ∀ p ∈ e.1.snapshot :: e.2.published, p.report = some r) ∨
      (∀ r, e.2.answer ≠ .finished (.ok r)) ∧
        ∀ p ∈ e.1.snapshot :: e.2.published, p.report = s.snapshot.report := by
  intro e
  rcases v with stage | (f | r) | m | _
  · refine Or.inr ⟨fun r h => Answer.noConfusion h, fun p hp => ?_⟩
    rw [List.mem_singleton.mp hp]
    rfl
  · refine Or.inr ⟨fun r h => ?_, fun p hp => ?_⟩
    · cases h
    · rw [show p = s.snapshot.failed f by simpa [e, settle, conclude, finish] using hp]
      rfl
  · refine Or.inl ⟨r, rfl, rfl, fun p hp => ?_⟩
    rw [show p = Snapshot.success r by simpa [e, settle, conclude, finish] using hp]
    rfl
  all_goals
    refine Or.inr ⟨fun r h => Answer.noConfusion h, fun p hp => ?_⟩
    rw [show p = s.snapshot.failed .abandoned by simpa [e, settle, abandon, finish] using hp]
    rfl

/-- **Every step does one of the three.** -/
theorem Move.reportMove {s : Session} {a : Step} {e : Session × Outcome} (hm : s.Move a e) :
    s.ReportMove a e := by
  cases hm with
  | refused hr =>
    have hkeep : ∀ p ∈ [s.snapshot], p.report = s.snapshot.report := by simp
    cases a <;> exact .kept rfl (fun r h => Answer.noConfusion h) hkeep
  | loaded hl => exact .cleared rfl (by simp [restart, Snapshot.idle])
  | reset hl => exact .cleared rfl (by simp [restart, Snapshot.idle])
  | policySet => exact .kept rfl (fun r h => Answer.noConfusion h) (by simp)
  | @started t request hq hl =>
    rw [startRun_eq]
    rcases s.atLoading.shown_settle request (.prepare :: callsEntered .preparing t request)
      (.ofTurn .preparing t) with ⟨r, hv, hanswer, hshown⟩ | ⟨hanswer, hshown⟩
    · obtain ⟨output, houtput, hreport⟩ := Advance.output_of_ofTurn hv
      refine .brought rfl hanswer ?_ hreport
        (hshown _ List.mem_cons_self) fun p hp => ?_
      · simp only [hanswer, Step.output?, houtput]
      · rcases List.mem_cons.mp hp with rfl | hp
        · exact Or.inl rfl
        · exact Or.inr (hshown p (List.mem_cons_of_mem _ hp))
    · refine .kept rfl hanswer fun p hp => ?_
      rcases List.mem_cons.mp hp with rfl | hp
      · exact hshown _ List.mem_cons_self
      · rcases List.mem_cons.mp hp with rfl | hp
        · rfl
        · exact hshown p (List.mem_cons_of_mem _ hp)
  | @resumed t run hp =>
    rw [askAgain_eq]
    rcases s.shown_settle run.request (callsEntered run.stage t run.request)
      (.ofTurn run.stage t) with ⟨r, hv, hanswer, hshown⟩ | ⟨hanswer, hshown⟩
    · obtain ⟨output, houtput, hreport⟩ := Advance.output_of_ofTurn hv
      refine .brought rfl hanswer ?_ hreport
        (hshown _ List.mem_cons_self) fun p hp => Or.inr (hshown p (List.mem_cons_of_mem _ hp))
      simp only [hanswer, Step.output?, houtput]
    · exact .kept rfl hanswer hshown
  | dropped hp =>
    exact .kept rfl (fun r h => Answer.noConfusion h) (by simp [abandon, finish, Snapshot.failed])
  | idle ha hp =>
    have hkeep : ∀ p ∈ [s.snapshot], p.report = s.snapshot.report := by simp
    rcases ha with rfl | ⟨t, rfl⟩ <;> exact .kept rfl (fun r h => Answer.noConfusion h) hkeep

/-! ## What a record has on view -/

/-- A session shows the report that its record has on view: that of the output on view, and none if
there is no such output. -/
def ShowsRecord (s : Session) (h : List (Step × Outcome)) : Prop :=
  s.snapshot.report.map Except.ok = (outputOnView? h).map Report.ofOutput

/-- **Every step keeps what is shown and what is on record together.** -/
theorem ReportMove.showsRecord {s : Session} {h : List (Step × Outcome)} {a : Step}
    {e : Session × Outcome} (hm : s.ReportMove a e) (hs : s.ShowsRecord h) :
    e.1.ShowsRecord (h ++ [(a, e.2)]) := by
  unfold ShowsRecord outputOnView?
  rw [newest?_concat]
  cases hm with
  | cleared ha hshown =>
    rw [hshown _ List.mem_cons_self, if_pos ha]
    rfl
  | brought ha hanswer houtput hreport hview hshown =>
    rw [hview, if_neg (by simp [ha]), houtput, Option.some_or, Option.map_some, Option.map_some,
      hreport]
  | kept ha hanswer hshown =>
    rw [hshown _ List.mem_cons_self, if_neg (by simp [ha]), Step.output?_eq_none hanswer,
      Option.none_or]
    exact hs

/-- **The report on view is the one on record.** -/
theorem report_follows_record (as : List Step) :
    (start.run as).1.ShowsRecord (start.history as) :=
  record_induction (P := ShowsRecord) rfl
    (fun s _ a _ hs => (s.step_move a).reportMove.showsRecord hs) as

/-- A report that a session shows comes from an output on its record that stands behind every entry
at which the input was replaced. -/
theorem ShowsRecord.exists_output {s : Session} {before after : List (Step × Outcome)}
    {x : Step × Outcome} (hs : s.ShowsRecord (before ++ x :: after))
    (hx : x.1.restarts x.2.answer = true) {r : Report} (hr : s.snapshot.report = some r) :
    ∃ z ∈ after, ∃ output, z.1.output? z.2.answer = some output ∧
      Report.ofOutput output = .ok r := by
  rw [ShowsRecord, outputOnView?_append_cons hx, hr, Option.map_some] at hs
  obtain ⟨output, houtput, hreport⟩ := Option.map_eq_some_iff.mp hs.symm
  obtain ⟨z, hz, hread⟩ := exists_of_newest?_eq_some houtput
  exact ⟨z, hz, output, hread, hreport⟩

/-- The same of every snapshot that was published since. -/
theorem exists_output_of_published {as : List Step} {before after : List (Step × Outcome)}
    {x y : Step × Outcome} (h : start.history as = before ++ x :: after)
    (hx : x.1.restarts x.2.answer = true) (hy : y ∈ after) {p : Snapshot}
    (hp : p ∈ y.2.published) {r : Report} (hr : p.report = some r) :
    ∃ z ∈ after, ∃ output, z.1.output? z.2.answer = some output ∧
      Report.ofOutput output = .ok r := by
  obtain ⟨mid, late, rfl⟩ := List.append_of_mem hy
  rw [← List.cons_append, ← List.append_assoc] at h
  obtain ⟨bs, a, hbs, rfl⟩ := history_eq_append_cons h
  have hshows : (start.run bs).1.ShowsRecord (before ++ x :: mid) := hbs ▸ report_follows_record bs
  -- a report that was on view before `y` comes from an entry between `x` and `y`
  have hold : p.report = (start.run bs).1.snapshot.report →
      ∃ z ∈ mid ++ (a, ((start.run bs).1.step a).2) :: late, ∃ output,
        z.1.output? z.2.answer = some output ∧ Report.ofOutput output = .ok r := by
    intro hkept
    obtain ⟨z, hz, hread⟩ := hshows.exists_output hx (hkept ▸ hr)
    exact ⟨z, List.mem_append_left _ hz, hread⟩
  cases ((start.run bs).1.step_move a).reportMove with
  | cleared ha hshown =>
    rw [hshown p (List.mem_cons_of_mem _ hp)] at hr
    cases hr
  | @brought output r' ha hanswer houtput hreport hview hshown =>
    rcases hshown p hp with hkept | hnew
    · exact hold hkept
    · obtain rfl : r' = r := Option.some.inj (hnew.symm.trans hr)
      exact ⟨_, List.mem_append_right _ List.mem_cons_self, output, houtput, hreport⟩
  | kept ha hanswer hshown => exact hold (hshown p (List.mem_cons_of_mem _ hp))

/-! ## The main statement -/

/-- **What a session shows of reports,** in the words of its record. -/
structure ShowsNewestReport (s : Session) (h : List (Step × Outcome)) : Prop where
  /-- The report on view is that of the output on view, and there is none without such an output. -/
  report_eq : s.snapshot.report.map Except.ok = (outputOnView? h).map Report.ofOutput
  /-- Every run that ended well has put its output on record, and was answered with its report. -/
  output_of_success : ∀ x ∈ h, ∀ r, x.2.answer = .finished (.ok r) →
    ∃ output, x.1.output? x.2.answer = some output ∧ Report.ofOutput output = .ok r
  /-- A step that neither replaces the input nor ends a run well shows the old report and no
  other. -/
  others_keep : ∀ a, a.restarts (s.step a).2.answer = false →
    (∀ r, (s.step a).2.answer ≠ .finished (.ok r)) →
      ∀ p ∈ (s.step a).1.snapshot :: (s.step a).2.published, p.report = s.snapshot.report
  /-- Once the input has been replaced no report is shown, but those of runs that ended later. -/
  none_older : ∀ before x after, h = before ++ x :: after → x.1.restarts x.2.answer = true →
    (∀ p ∈ x.2.published, p.report = none) ∧
      ∀ p, (p = s.snapshot ∨ ∃ y ∈ after, p ∈ y.2.published) → ∀ r, p.report = some r →
        ∃ z ∈ after, ∃ output, z.1.output? z.2.answer = some output ∧
          Report.ofOutput output = .ok r

/-- A step that is answered with a report has its output on record. -/
theorem ReportMove.output_of_finished {s : Session} {a : Step} {e : Session × Outcome}
    (hm : s.ReportMove a e) {r : Report} (h : e.2.answer = .finished (.ok r)) :
    ∃ output, a.output? e.2.answer = some output ∧ Report.ofOutput output = .ok r := by
  cases hm with
  | cleared ha hshown =>
    rw [h] at ha
    cases a <;> cases ha
  | @brought output r' ha hanswer houtput hreport hview hshown =>
    rw [h, Answer.finished.injEq, Except.ok.injEq] at hanswer
    exact ⟨output, houtput, hanswer ▸ hreport⟩
  | kept ha hanswer hshown => exact absurd h (hanswer r)

/-- A step that keeps the report shows no other. -/
theorem ReportMove.shown_of_kept {s : Session} {a : Step} {e : Session × Outcome}
    (hm : s.ReportMove a e) (ha : a.restarts e.2.answer = false)
    (h : ∀ r, e.2.answer ≠ .finished (.ok r)) :
    ∀ p ∈ e.1.snapshot :: e.2.published, p.report = s.snapshot.report := by
  cases hm with
  | cleared hclears hshown =>
    rw [ha] at hclears
    cases hclears
  | brought hstays hanswer houtput hreport hview hshown => exact absurd hanswer (h _)
  | kept hstays hanswer hshown => exact hshown

/-- A step that replaces the input publishes no report. -/
theorem ReportMove.published_of_restarts {s : Session} {a : Step} {e : Session × Outcome}
    (hm : s.ReportMove a e) (ha : a.restarts e.2.answer = true) :
    ∀ p ∈ e.2.published, p.report = none := by
  cases hm with
  | cleared hclears hshown => exact fun p hp => hshown p (List.mem_cons_of_mem _ hp)
  | brought hstays hanswer houtput hreport hview hshown =>
    rw [ha] at hstays
    cases hstays
  | kept hstays hanswer hshown =>
    rw [ha] at hstays
    cases hstays

/-- **The report on view is the newest since the input was replaced.**  Whatever is done with a
session and whatever its engine does, the session shows the report of the newest output with which
a run has ended well since the last load or reset that was not refused, and none if there is no such
output.  Runs on their way, failed, broken, dropped or refused and a new policy leave it as it is,
and what was shown before the input was replaced is never shown again. -/
theorem report_is_newest_since_restart (as : List Step) :
    (start.run as).1.ShowsNewestReport (start.history as) where
  report_eq := report_follows_record as
  output_of_success x hx r hr := by
    obtain ⟨before, after, hsplit⟩ := List.append_of_mem hx
    obtain ⟨bs, a, -, rfl⟩ := history_eq_append_cons hsplit
    exact ((start.run bs).1.step_move a).reportMove.output_of_finished hr
  others_keep a ha hanswer := ((start.run as).1.step_move a).reportMove.shown_of_kept ha hanswer
  none_older before x after hsplit hx := by
    constructor
    · obtain ⟨bs, a, -, rfl⟩ := history_eq_append_cons hsplit
      exact ((start.run bs).1.step_move a).reportMove.published_of_restarts hx
    · rintro p (rfl | ⟨y, hy, hp⟩) r hr
      · exact (hsplit ▸ report_follows_record as).exists_output hx hr
      · exact exists_output_of_published hsplit hx hy hp hr

end Session

end PlcAudit
