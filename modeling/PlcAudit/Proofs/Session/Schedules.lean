import PlcAudit.Proofs.Session.Runs

/-!
# Runs do not depend on their schedule

An engine may stall at either of its calls, any number of times, and between two askings of a run
anything may be done with the session.  None of it decides how the run ends.  What decides is what
the engine answers in the end, and, where it fails, the report that was on view when the run was
started.

The steps of a run are first reduced to the turns among them, which is a matter of following the run
and needs no session (`Advance.endsWith_of_trigger`).  That the session then ends where the run does
is the other half.  It looks at its snapshot again there, and the snapshot that it finds is still
the one that it left, because nothing that it takes while a run is pending touches it
(`Session.reflects_of_trigger`).

## The replies of an engine

Of the replies that an engine gives turn by turn only two count: the first answer of the
preparation, and the first answer of the analysis from that turn on.  `EngineAnswers` reads them off
the turns, and `verdict` says what they amount to.  If the preparation fails the analysis is never
asked, so that `EngineAnswers` leaves its answer open and `verdict` does not look at it.

* `verdict`: how a run ends.
* `Advance.EndsWith`: a run that is asked turn by turn until it has a result, with
  `Advance.EndsWith.answered`: that result is the verdict on the answers.
* `Advance.endsWith_of_trigger`: a run is asked in the turns among its steps.
* `Session.endsIn_of_trigger`: a session ends in the result of its run.
* `Session.schedule_independent`: the main statement.
-/

namespace PlcAudit

/-! ## The answers of an engine -/

/-- The answer that a reply is, if it is one. -/
def Reply.answer? : Reply α → Option (Except EngineFault α)
  | .answered result => some result
  | _ => none

/-- What the preparation answers in the end. -/
def preparationAnswer? (ts : List Turn) : Option (Except EngineFault Unit) :=
  ts.findSome? fun t => t.preparation.answer?

/-- What the analysis answers in the end.  It is asked from the turn on in which the preparation
answers. -/
def analysisAnswer? (ts : List Turn) : Option (Except EngineFault String) :=
  (ts.dropWhile fun t => t.preparation.answer?.isNone).findSome? fun t => t.analysis.answer?

/-- Over these turns the engine's two calls answer so.  A preparation that fails leaves the answer of
the analysis open. -/
structure EngineAnswers (ts : List Turn) (p : Except EngineFault Unit)
    (q : Except EngineFault String) : Prop where
  preparation : preparationAnswer? ts = some p
  analysis : p = .ok () → analysisAnswer? ts = some q

/-- How a run ends whose engine answers so.  An engine that cannot be prepared is unavailable,
whichever way it says so. -/
def verdict : Except EngineFault Unit → Except EngineFault String → Except Failure Report
  | .error fault, _ => .error (.engineUnavailable fault.message)
  | .ok (), .error (.unavailable m) => .error (.engineUnavailable m)
  | .ok (), .error (.threw m) => .error (.engineThrew m)
  | .ok (), .ok output => Report.ofOutput output

/-- Answers over the same turns amount to the same. -/
theorem EngineAnswers.verdict_eq {ts : List Turn} {p p' : Except EngineFault Unit}
    {q q' : Except EngineFault String} (h : EngineAnswers ts p q) (h' : EngineAnswers ts p' q') :
    verdict p q = verdict p' q' := by
  obtain rfl : p = p' := Option.some.inj (h.preparation.symm.trans h'.preparation)
  cases hp : p with
  | error fault => rfl
  | ok u => rw [Option.some.inj ((h.analysis hp).symm.trans (h'.analysis hp))]

/-- A turn in which the preparation stalls leaves the answers to the turns that follow. -/
theorem EngineAnswers.cons_of_stalled {ts : List Turn} {p : Except EngineFault Unit}
    {q : Except EngineFault String} (h : EngineAnswers ts p q) {t : Turn}
    (ht : t.preparation.answer? = none) : EngineAnswers (t :: ts) p q where
  preparation := by
    rw [preparationAnswer?, List.findSome?_cons, ht]
    exact h.preparation
  analysis hp := by
    rw [analysisAnswer?, List.dropWhile_cons_of_pos (by rw [ht]; rfl)]
    exact h.analysis hp

/-- An output that is refused makes the verdict that it is malformed. -/
theorem verdict_malformed {output : String} {f : Failure}
    (h : verdict (.ok ()) (.ok output) = .error f) : ∃ m, f = .malformedOutput m := by
  have hkind : f.kind = .malformedOutput := Report.kind_of_ofOutput_error h
  cases f with
  | malformedOutput m => exact ⟨m, rfl⟩
  | inputMissing | engineUnavailable | engineThrew | busy | abandoned => cases hkind

namespace Advance

/-! ## Asking turn by turn -/

/-- A run that waits at a stage is asked in these turns, and the last of them brings the result. -/
inductive EndsWith (result : Except Failure Report) : Stage → List Turn → Prop where
  | now {stage : Stage} {t : Turn} (h : ofTurn stage t = ends result) : EndsWith result stage [t]
  | later {stage next : Stage} {t : Turn} {ts : List Turn} (h : ofTurn stage t = waits next)
      (hrest : EndsWith result next ts) : EndsWith result stage (t :: ts)

theorem ofAnalysis_eq_ends {reply : Reply String} {result : Except Failure Report}
    (h : ofAnalysis reply = ends result) :
    ∃ q, reply.answer? = some q ∧ result = verdict (.ok ()) q := by
  rcases reply with _ | ((m | m) | output) | m
  · cases h
  · exact ⟨_, rfl, (Advance.ends.inj h).symm⟩
  · exact ⟨_, rfl, (Advance.ends.inj h).symm⟩
  · exact ⟨_, rfl, (Advance.ends.inj h).symm⟩
  · cases h

theorem ofAnalysis_eq_waits {reply : Reply String} {next : Stage}
    (h : ofAnalysis reply = waits next) : reply.answer? = none ∧ next = .analyzing := by
  rcases reply with _ | (_ | _) | _
  · exact ⟨rfl, (Advance.waits.inj h).symm⟩
  · cases h
  · cases h
  · cases h

/-- A run that waits for the analysis ends as the first answer of the analysis has it. -/
theorem EndsWith.analyzed {result : Except Failure Report} {ts : List Turn}
    (h : EndsWith result .analyzing ts) :
    ∃ q, ts.findSome? (fun t => t.analysis.answer?) = some q ∧ result = verdict (.ok ()) q := by
  induction ts with
  | nil => cases h
  | cons t ts ih =>
    cases h with
    | now hends =>
      obtain ⟨q, hq, hresult⟩ := ofAnalysis_eq_ends hends
      exact ⟨q, by rw [List.findSome?_cons, hq], hresult⟩
    | later hwaits hrest =>
      obtain ⟨hnone, rfl⟩ := ofAnalysis_eq_waits hwaits
      obtain ⟨q, hq, hresult⟩ := ih hrest
      exact ⟨q, by rw [List.findSome?_cons, hnone]; exact hq, hresult⟩

/-- Once the preparation has answered well, a run goes on as one that waits for the analysis. -/
theorem EndsWith.of_prepared {result : Except Failure Report} {t : Turn} {ts : List Turn}
    (ht : t.preparation = .answered (.ok ())) (h : EndsWith result .preparing (t :: ts)) :
    EndsWith result .analyzing (t :: ts) := by
  have hsame : ofTurn .preparing t = ofTurn .analyzing t := by simp only [ofTurn, ht]
  cases h with
  | now hends => exact .now (hsame ▸ hends)
  | later hwaits hrest => exact .later (hsame ▸ hwaits) hrest

/-- A run that waits after a turn is asked in the turns that remain. -/
theorem EndsWith.rest {result : Except Failure Report} {stage next : Stage} {t : Turn}
    {ts : List Turn} (h : EndsWith result stage (t :: ts)) (ht : ofTurn stage t = waits next) :
    EndsWith result next ts := by
  cases h with
  | now hends =>
    rw [ht] at hends
    cases hends
  | later hwaits hrest =>
    obtain rfl := Advance.waits.inj (ht.symm.trans hwaits)
    exact hrest

/-- A run that has its result after a turn has no other. -/
theorem EndsWith.result_eq {result result' : Except Failure Report} {stage : Stage} {t : Turn}
    {ts : List Turn} (h : EndsWith result stage (t :: ts)) (ht : ofTurn stage t = ends result') :
    result = result' := by
  cases h with
  | now hends => exact Advance.ends.inj (hends.symm.trans ht)
  | later hwaits hrest =>
    rw [ht] at hwaits
    cases hwaits

/-- A run that breaks down has no result. -/
theorem EndsWith.not_breaks {result : Except Failure Report} {stage : Stage} {t : Turn}
    {ts : List Turn} (h : EndsWith result stage (t :: ts)) (m : String) :
    ofTurn stage t ≠ breaks m := by
  intro ht
  cases h with
  | now hends | later hends =>
    rw [ht] at hends
    cases hends

/-- **The result of a run is the verdict on the answers of its engine,** wherever they stand among
the turns. -/
theorem EndsWith.answered {result : Except Failure Report} {ts : List Turn}
    (h : EndsWith result .preparing ts) :
    ∃ p q, EngineAnswers ts p q ∧ result = verdict p q := by
  induction ts with
  | nil => cases h
  | cons t ts ih =>
    rcases ht : t.preparation with _ | (fault | u) | m
    · -- the preparation stalls, and the run is where it was
      obtain ⟨p, q, hanswers, hresult⟩ := ih (h.rest (by simp only [ofTurn, ht]))
      exact ⟨p, q, hanswers.cons_of_stalled (by rw [ht]; rfl), hresult⟩
    · -- the preparation fails, and the run ends here
      have hprepared : preparationAnswer? (t :: ts) = some (.error fault) := by
        rw [preparationAnswer?, List.findSome?_cons, ht]
        rfl
      exact ⟨.error fault, .ok "", ⟨hprepared, fun hp => by cases hp⟩,
        h.result_eq (by simp only [ofTurn, ht, verdict])⟩
    · -- the preparation succeeds, and from here on the analysis is asked
      obtain ⟨q, hq, hresult⟩ := (h.of_prepared ht).analyzed
      refine ⟨.ok (), q, ⟨?_, fun _ => ?_⟩, hresult⟩
      · rw [preparationAnswer?, List.findSome?_cons, ht]
        rfl
      · rw [analysisAnswer?, List.dropWhile_cons_of_neg (by rw [ht]; simp [Reply.answer?])]
        exact hq
    · exact absurd (by simp only [ofTurn, ht]) (h.not_breaks m)

end Advance

/-! ## From steps to turns -/

/-- The turn that a step gives to a pending run. -/
def Step.turn? : Step → Option Turn
  | .resume t => some t
  | _ => none

namespace Advance

/-- What a run needs after a turn: nothing if that has ended it, and otherwise the turns from the
stage on at which it waits. -/
theorem EndsWith.of_turn {result : Except Failure Report} {stage : Stage} {t : Turn}
    {as : List Step} {ts : List Turn} (hts : as = [] → ts = [])
    (h : (ofTurn stage t).through? as = some (ends result))
    (hrest : ∀ next, (waits next).through? as = some (ends result) → EndsWith result next ts) :
    EndsWith result stage (t :: ts) := by
  cases hadvance : ofTurn stage t with
  | waits next =>
    rw [hadvance] at h
    exact .later hadvance (hrest next h)
  | ends _ | breaks _ | dropped =>
    rw [hadvance] at h
    obtain ⟨hnil, hsame⟩ := through?_of_ended rfl h
    rw [hts hnil]
    exact .now (hadvance.trans hsame.symm)

/-- **A run ends as its turns have it,** whatever other steps stand between them. -/
theorem endsWith_of_through? {result : Except Failure Report} {stage : Stage} {as : List Step}
    (h : (waits stage).through? as = some (ends result)) :
    EndsWith result stage (as.filterMap Step.turn?) := by
  induction as generalizing stage with
  | nil => cases h
  | cons a as ih =>
    rw [through?_waits_cons] at h
    cases a with
    | resume t =>
      have hturns : (Step.resume t :: as).filterMap Step.turn? = t :: as.filterMap Step.turn? := rfl
      rw [hturns]
      exact .of_turn (by rintro rfl; rfl) h fun _ => ih
    | drop => cases (through?_of_ended rfl h).2
    | load | setPolicy | reset | analyze =>
      rw [List.filterMap_cons_none rfl]
      exact ih h

/-- The same from the trigger on, whose turn is the first. -/
theorem endsWith_of_trigger {result : Except Failure Report} {t : Turn} {as : List Step}
    (h : (ofTurn .preparing t).through? as = some (ends result)) :
    EndsWith result .preparing (t :: as.filterMap Step.turn?) :=
  .of_turn (by rintro rfl; rfl) h fun _ => endsWith_of_through?

end Advance

namespace Session

/-! ## Triggers -/

/-- A trigger that was not refused has started a run, and would have done so whatever the engine
did in its turn. -/
theorem step_of_startsRun {s : Session} {t : Turn}
    (h : (Step.analyze t).startsRun (s.step (.analyze t)).2.answer = true) :
    ∃ request, ∀ u, s.step (.analyze u) = s.startRun request u := by
  have hm := s.step_move (.analyze t)
  generalize s.step (.analyze t) = e at hm h
  cases hm with
  | refused hr => cases h
  | @started _ request hq hl =>
    exact ⟨request, fun u => by simp only [step, hq, hl, Bool.false_eq_true, if_false]⟩
  | idle ha => rcases ha with ha | ⟨u, ha⟩ <;> cases ha

/-- What is published before the terminal snapshot does not count. -/
theorem EndsIn.cons_published {e : Session} {o : Outcome} {report : Option Report}
    {result : Except Failure Report} (h : EndsIn e o report result) (p : Snapshot) :
    EndsIn e { o with published := p :: o.published } report result where
  answer := h.answer
  view := h.view
  published := by
    rw [List.getLast?_cons, h.published]
    rfl

/-- A run that has its result in the turn of its trigger ends in it there. -/
theorem endsIn_startRun {s : Session} (request : Request) {t : Turn}
    {result : Except Failure Report} (h : Advance.ofTurn .preparing t = .ends result) :
    EndsIn (s.startRun request t).1 (s.startRun request t).2 s.snapshot.report result := by
  rw [startRun_eq, h]
  obtain ⟨o, hlast, hends⟩ := (s.atLoading.reflects_settle request
    (.prepare :: callsEntered .preparing t request) (.ends result)).ended result rfl
  obtain rfl := Option.some.inj hlast
  exact hends.cons_published _

/-- **A run that has its result ends in it,** however many steps after its trigger. -/
theorem endsIn_of_trigger {s : Session} {t : Turn} {as : List Step}
    {result : Except Failure Report} (hs : s.WellFormed)
    (hstarts : (Step.analyze t).startsRun (s.step (.analyze t)).2.answer = true)
    (h : (Advance.ofTurn .preparing t).through? as = some (.ends result)) :
    ∃ o, (s.run (.analyze t :: as)).2.getLast? = some o ∧
      EndsIn (s.run (.analyze t :: as)).1 o s.snapshot.report result := by
  obtain ⟨request, o, os, hos, hr⟩ := reflects_of_trigger hs hstarts h
  obtain ⟨last, hlast, hends⟩ := hr.ended result rfl
  rw [hos, List.getLast?_cons]
  rw [List.getLast?_cons] at hlast
  cases hrest : os.getLast? with
  | none =>
    rw [hrest] at hlast
    obtain rfl : o = last := Option.some.inj hlast
    exact ⟨_, rfl, hends.cons_published _⟩
  | some last' =>
    rw [hrest] at hlast
    obtain rfl : last' = last := Option.some.inj hlast
    exact ⟨_, rfl, hends⟩

end Session

/-- A turn in which both calls answer at once. -/
def Turn.prompt (p : Except EngineFault Unit) (q : Except EngineFault String) : Turn where
  preparation := .answered p
  analysis := .answered q

/-- Answers that come at once amount to the verdict on them. -/
theorem Advance.ofTurn_prompt (p : Except EngineFault Unit) (q : Except EngineFault String) :
    ofTurn .preparing (.prompt p q) = ends (verdict p q) := by
  rcases p with fault | u
  · rfl
  · rcases q with (m | m) | output <;> rfl

namespace Session

/-- **How a run ends does not depend on its schedule.**  Take a run from its trigger to its result,
with any steps between, and with turns of the engine in which its calls stall as often as they like.
Then the engine has answered, and for all answers that are its answers over these turns

* the result is the verdict on them, and a refused output makes it that the output is malformed;
* the last step of the run is answered with the result, and publishes and leaves on view the
  terminal snapshot, which for a failure has its kind and message and the report from before the run;
* in any session that shows the same report and does not refuse a trigger, such as this one, a run
  whose engine gives the same answers at once ends in its first turn with the same result and the
  same snapshot. -/
theorem schedule_independent (before : List Step) (t : Turn) (during : List Step)
    (result : Except Failure Report)
    (hresult : standing? ((start.run before).1.history (.analyze t :: during)) =
      some (.ends result)) :
    let s := (start.run before).1
    let ts := t :: during.filterMap Step.turn?
    (∃ p q, EngineAnswers ts p q) ∧
      (∃ o, (s.run (.analyze t :: during)).2.getLast? = some o ∧
        EndsIn (s.run (.analyze t :: during)).1 o s.snapshot.report result) ∧
      ∀ p q, EngineAnswers ts p q →
        result = verdict p q ∧
          (∀ output f, p = .ok () → q = .ok output → result = .error f →
            ∃ m, f = .malformedOutput m) ∧
          ∀ (s' : Session) (u : Turn), s'.snapshot.report = s.snapshot.report →
            (Step.analyze u).startsRun (s'.step (.analyze u)).2.answer = true →
              let e := s'.step (.analyze (.prompt p q))
              EndsIn e.1 e.2 s.snapshot.report result := by
  intro s ts
  rw [history_cons] at hresult
  have hstarted := startsRun_of_standing?_eq_some hresult
  rw [standing?_of_startsRun hstarted, map_fst_history] at hresult
  have hend := endsIn_of_trigger (wellFormed_start.run before) hstarted hresult
  obtain ⟨p₀, q₀, hanswers, hverdict⟩ := (Advance.endsWith_of_trigger hresult).answered
  refine ⟨⟨p₀, q₀, hanswers⟩, hend, fun p q hpq => ?_⟩
  have heq : result = verdict p q := hverdict.trans (hanswers.verdict_eq hpq)
  refine ⟨heq, ?_, ?_⟩
  · rintro output f rfl rfl hf
    exact verdict_malformed (heq.symm.trans hf)
  · intro s' u hreport hstarted' e
    obtain ⟨request, hstep⟩ := step_of_startsRun hstarted'
    have hprompt : Advance.ofTurn .preparing (.prompt p q) = .ends result :=
      heq ▸ Advance.ofTurn_prompt p q
    rw [← hreport, show e = s'.startRun request (.prompt p q) from hstep _]
    exact endsIn_startRun request hprompt

/-- A run that stalls at both calls, with a new policy and a refused reset between, ends like the
run that is answered at once: with the empty report. -/
theorem stalled_run_ends_like_prompt_run :
    let before := [Step.load ⟨"m.st", "A", rfl⟩]
    let stall : Turn := ⟨.pending, .pending⟩
    let during := [Step.setPolicy (some "p"), .resume ⟨.answered (.ok ()), .pending⟩, .reset,
      .resume ⟨.pending, .answered (.ok "[]")⟩]
    let s := (start.run before).1
    let result := Except.ok (Report.ofFindings [])
    let e := s.step (.analyze (.prompt (.ok ()) (.ok "[]")))
    (Step.analyze stall).startsRun (s.step (.analyze stall)).2.answer = true ∧
      standing? (s.history (.analyze stall :: during)) = some (.ends result) ∧
      EndsIn e.1 e.2 s.snapshot.report result := by
  intro before stall during s result e
  have hstarted : (Step.analyze stall).startsRun (s.step (.analyze stall)).2.answer = true := rfl
  have hlast : Report.ofOutput "[]" = .ok (.ofFindings []) := by rfl
  have hresult : standing? (s.history (.analyze stall :: during)) = some (.ends result) :=
    congrArg (fun r => some (Advance.ends r)) hlast
  obtain ⟨-, -, hprompt⟩ := schedule_independent before stall during result hresult
  obtain ⟨-, -, hends⟩ := hprompt (.ok ()) (.ok "[]") ⟨rfl, fun _ => rfl⟩
  exact ⟨hstarted, hresult, hends s stall rfl hstarted⟩

end Session

end PlcAudit
