import Mathlib.Data.List.Infix
import PlcAudit.Proofs.Session.Record

/-!
# The runs on a record

When a run is over is not for the session to say.  It is over when the engine has given its last
answer, or has broken down, or when nobody waits for it any longer, and a session that let it go on
after that, or gave it up before, would be at fault.  So the runs of a record are followed here by
the steps and the replies of the engine alone.  Of what a session answers only one thing is used:
whether it has refused a trigger.

A trigger that is accepted while a run is pending starts a second one beside it, and both are
followed from there on.  That there is never a second one is therefore a statement about sessions
and not part of the definitions.

* `standing?`: what has become of a run over some entries, from its trigger on.
* `standings`, `awaitedOn`, `resultsAt`: what has become of the runs on a record with its last
  entry, with `standings_concat` for one more entry.
* `runsPending`, `RunPending`: the runs that have not ended.
* `Session.Reflects`: a session in which what has become of its run can be seen.
* `Session.RunMove`, with `Move.runMove`: what a step does about runs, and with `Reflects.through`
  what several steps do.
* `Session.awaitedOn_history`: the session waits for what the runs on its record wait for.
* `Session.phase_tracks_pending_run`: a session shows that it is loading while a run is pending.
-/

namespace PlcAudit

/-! ## Following a run -/

/-- Whether a step has started a run: a trigger does, unless it is refused. -/
def Step.startsRun : Step → Answer → Bool
  | .analyze _, .refused _ => false
  | .analyze _, _ => true
  | _, _ => false

/-- **What has become of a run over these entries,** of which the first has started it, and none but
the last has ended it. -/
def standing? : List (Step × Outcome) → Option Advance
  | (.analyze t, o) :: rest =>
    if (Step.analyze t).startsRun o.answer then
      (Advance.ofTurn .preparing t).through? (rest.map Prod.fst)
    else none
  | _ => none

theorem standing?_of_startsRun {t : Turn} {o : Outcome}
    (h : (Step.analyze t).startsRun o.answer = true) (rest : List (Step × Outcome)) :
    standing? ((.analyze t, o) :: rest) =
      (Advance.ofTurn .preparing t).through? (rest.map Prod.fst) := if_pos h

theorem standing?_of_not_startsRun {x : Step × Outcome} (h : x.1.startsRun x.2.answer = false)
    (rest : List (Step × Outcome)) : standing? (x :: rest) = none := by
  obtain ⟨a, o⟩ := x
  cases a with
  | analyze t => exact if_neg (by simp [h])
  | load | setPolicy | reset | resume | drop => rfl

/-- A run begins with its trigger. -/
theorem startsRun_of_standing?_eq_some {x : Step × Outcome} {rest : List (Step × Outcome)}
    {v : Advance} (h : standing? (x :: rest) = some v) : x.1.startsRun x.2.answer = true := by
  by_contra hnot
  rw [standing?_of_not_startsRun (Bool.eq_false_iff.mpr hnot)] at h
  cases h

/-- What becomes of a run in further entries. -/
theorem standing?_append {run : List (Step × Outcome)} (hne : run ≠ [])
    (rest : List (Step × Outcome)) :
    standing? (run ++ rest) = (standing? run).bind (·.through? (rest.map Prod.fst)) := by
  obtain ⟨x, run, rfl⟩ := List.exists_cons_of_ne_nil hne
  rw [List.cons_append]
  cases hstarts : x.1.startsRun x.2.answer with
  | false => rw [standing?_of_not_startsRun hstarts, standing?_of_not_startsRun hstarts]; rfl
  | true =>
    obtain ⟨a, o⟩ := x
    cases a with
    | analyze t =>
      rw [standing?_of_startsRun hstarts, standing?_of_startsRun hstarts, List.map_append,
        Advance.through?_append]
    | load | setPolicy | reset | resume | drop => cases hstarts

/-! ## All runs of a record -/

/-- What has become, with the last entry of a record, of each run on it that had not ended
before. -/
def standings (h : List (Step × Outcome)) : List Advance := h.tails.filterMap standing?

/-- The calls for which the pending runs of a record wait, one for each of them. -/
def awaitedOn (h : List (Step × Outcome)) : List Stage := (standings h).filterMap Advance.awaited?

/-- The results of the runs that have ended with the last entry of a record. -/
def resultsAt (h : List (Step × Outcome)) : List (Except Failure Report) :=
  (standings h).filterMap Advance.result?

/-- How many runs on a record have been started and have neither finished nor broken down nor been
dropped. -/
def runsPending (h : List (Step × Outcome)) : Nat := (awaitedOn h).length

/-- Whether a run is pending on a record. -/
def RunPending (h : List (Step × Outcome)) : Prop := 0 < runsPending h

theorem standings_cons (x : Step × Outcome) (h : List (Step × Outcome)) :
    standings (x :: h) = (standing? (x :: h)).toList ++ standings h := by
  rw [standings, List.tails_cons, List.filterMap_cons]
  cases standing? (x :: h) <;> rfl

/-- What a run leaves of something, where there is at most one run. -/
theorem filterMap_toList {β : Type} (f : Advance → Option β) (v : Option Advance) :
    v.toList.filterMap f = (v.bind f).toList := by
  cases v with
  | none => rfl
  | some v => rw [Option.toList_some, List.filterMap_cons, Option.bind_some]; cases f v <;> rfl

/-- **One more entry** bears on each run that is pending, and may start another. -/
theorem standings_concat (h : List (Step × Outcome)) (x : Step × Outcome) :
    standings (h ++ [x]) =
      (awaitedOn h).map (Advance.ofStep · x.1) ++ (standing? [x]).toList := by
  induction h with
  | nil =>
    rw [List.nil_append, standings_cons]
    exact List.append_nil _
  | cons y h ih =>
    rw [List.cons_append, standings_cons, ih, ← List.cons_append,
      standing?_append (List.cons_ne_nil y h), awaitedOn, awaitedOn, standings_cons,
      List.filterMap_append, List.map_append, List.append_assoc]
    congr 1
    rcases standing? (y :: h) with _ | v
    · rfl
    · rcases hawaits : v.awaited? with _ | stage <;>
        simp [Advance.through?, hawaits]

/-- What is on view when a run has ended, given the report that was on view when it was started. -/
def Snapshot.terminal (report : Option Report) : Except Failure Report → Snapshot
  | .ok r => { phase := .success, report := some r, notice := none }
  | .error f => { phase := .failure, report := report, notice := some ⟨f.kind, f.message⟩ }

namespace Session

/-! ## Sessions and their run -/

/-- What the end of a run leaves: the result as the answer, and the terminal snapshot both published
last and on view. -/
structure EndsIn (e : Session) (o : Outcome) (report : Option Report)
    (result : Except Failure Report) : Prop where
  answer : o.answer = .finished result
  view : e.snapshot = .terminal report result
  published : o.published.getLast? = some e.snapshot

/-- **A session in which what has become of its run can be seen.**  It waits for what the run waits
for; until the run has ended it shows and publishes nothing new, and then the terminal snapshot; and
if there is a result it has given it as its last answer. -/
structure Reflects (s : Session) (request : Request) (v : Advance) (s' : Session)
    (os : List Outcome) : Prop where
  pending : s'.pending = v.awaited?.map fun stage => ⟨request, stage⟩
  view : s'.snapshot = (v.result?.map (.terminal s.snapshot.report)).getD s.snapshot
  published : os.flatMap (·.published) = (v.result?.map (.terminal s.snapshot.report)).toList
  ended : ∀ result, v = .ends result → ∃ o, os.getLast? = some o ∧
    EndsIn s' o s.snapshot.report result

/-- A run that is asked or dropped can be seen to be. -/
theorem reflects_settle (s : Session) (request : Request) (calls : List Call) (v : Advance) :
    s.Reflects request v (s.settle request calls v).1 [(s.settle request calls v).2] := by
  rcases v with stage | (f | r) | m | _
  · exact ⟨rfl, rfl, rfl, nofun⟩
  · refine ⟨rfl, rfl, rfl, fun result h => ⟨_, rfl, ?_⟩⟩
    obtain rfl := Advance.ends.inj h
    exact ⟨rfl, rfl, rfl⟩
  · refine ⟨rfl, rfl, rfl, fun result h => ⟨_, rfl, ?_⟩⟩
    obtain rfl := Advance.ends.inj h
    exact ⟨rfl, rfl, rfl⟩
  · exact ⟨rfl, rfl, rfl, nofun⟩
  · exact ⟨rfl, rfl, rfl, nofun⟩

/-- What a run waits for after some steps is what it waits for before the next ones. -/
theorem Reflects.append {s s' s'' : Session} {request : Request} {stage : Stage} {v : Advance}
    {os os' : List Outcome} (h : s.Reflects request (.waits stage) s' os)
    (h' : s'.Reflects request v s'' os') : s.Reflects request v s'' (os ++ os') := by
  have hview : s'.snapshot = s.snapshot := h.view
  refine ⟨h'.pending, hview ▸ h'.view, ?_, fun result hv => ?_⟩
  · rw [List.flatMap_append, h.published, h'.published, hview]
    rfl
  · obtain ⟨o, hlast, hends⟩ := h'.ended result hv
    exact ⟨o, by rw [List.getLast?_append, hlast]; rfl, hview ▸ hends⟩

/-- **What a step does about runs.**  There is none before it and none after it; or it starts one;
or something becomes of the one that is pending. -/
inductive RunMove (s : Session) : Step → Session × Outcome → Prop where
  | free {a : Step} {e : Session × Outcome} (hp : s.pending = none)
      (hstarts : a.startsRun e.2.answer = false) (hp' : e.1.pending = none)
      (hview : e.1.snapshot = e.2.published.getLast?.getD s.snapshot)
      (hpublished : e.2.published = if a.restarts e.2.answer then [.idle] else []) : RunMove s a e
  | started {t : Turn} {request : Request} {s' : Session} {o : Outcome} (hp : s.pending = none)
      (hq : s.request? = some request)
      (hstarts : (Step.analyze t).startsRun o.answer = true)
      (hr : s.atLoading.Reflects request (.ofTurn .preparing t) s' [o]) :
      RunMove s (.analyze t) (s', { o with published := s.snapshot.loading :: o.published })
  | advanced {a : Step} {run : Run} {s' : Session} {o : Outcome} (hp : s.pending = some run)
      (hstarts : a.startsRun o.answer = false) (hrestarts : a.restarts o.answer = false)
      (hr : s.Reflects run.request (.ofStep run.stage a) s' [o]) : RunMove s a (s', o)

/-- A step that changes nothing of what a run is about. -/
theorem runMove_of_aside {s s' : Session} {a : Step} {o : Outcome}
    (hstarts : a.startsRun o.answer = false) (hrestarts : a.restarts o.answer = false)
    (haside : ∀ stage, Advance.ofStep stage a = .waits stage) (hpending : s'.pending = s.pending)
    (hview : s'.snapshot = s.snapshot) (hpublished : o.published = []) :
    s.RunMove a (s', o) := by
  cases hp : s.pending with
  | none =>
    refine .free hp hstarts (hpending.trans hp) ?_ ?_
    · rw [hview, hpublished]
      rfl
    · rw [hpublished, if_neg (by simp [hrestarts])]
  | some run =>
    refine .advanced hp hstarts hrestarts ?_
    rw [haside]
    refine ⟨hpending.trans hp, hview, ?_, nofun⟩
    rw [List.flatMap_singleton, hpublished]
    rfl

/-- A trigger whose run was asked has started it. -/
theorem startsRun_settle (s : Session) (t : Turn) (request : Request) (calls : List Call)
    (v : Advance) : (Step.analyze t).startsRun (s.settle request calls v).2.answer = true := by
  rcases v with _ | (_ | _) | _ | _ <;> rfl

/-- **Every step is one of these.** -/
theorem Move.runMove {s : Session} {a : Step} {e : Session × Outcome} (hm : s.Move a e)
    (hs : s.WellFormed) : s.RunMove a e := by
  cases hm with
  | refused hr =>
    cases a with
    | load | reset | analyze => exact runMove_of_aside rfl rfl (fun _ => rfl) rfl rfl rfl
    | setPolicy | resume | drop => cases hr
  | loaded hl | reset hl =>
    have hp : s.pending = none := hs.pending_eq_none hl
    exact .free hp rfl hp rfl rfl
  | policySet => exact runMove_of_aside rfl rfl (fun _ => rfl) rfl rfl rfl
  | started hq hl =>
    rw [startRun_eq]
    exact .started (hs.pending_eq_none hl) hq (startsRun_settle ..) (reflects_settle ..)
  | resumed hp =>
    rw [askAgain_eq]
    exact .advanced hp rfl rfl (reflects_settle ..)
  | @dropped run hp =>
    rw [abandon_eq s run.request]
    exact .advanced hp rfl rfl (reflects_settle ..)
  | idle ha hp =>
    rcases ha with rfl | ⟨t, rfl⟩
    · exact .free hp rfl hp rfl rfl
    · exact .free hp rfl hp rfl rfl

/-- **Several steps.**  What becomes of a run in them can be seen after them, whatever is done
meanwhile. -/
theorem Reflects.through {s s' : Session} {request : Request} {v w : Advance} {os : List Outcome}
    {as : List Step} (hr : s.Reflects request v s' os) (hs : s'.WellFormed)
    (h : v.through? as = some w) :
    s.Reflects request w (s'.run as).1 (os ++ (s'.run as).2) := by
  induction as generalizing s' v os with
  | nil =>
    obtain rfl := Option.some.inj h
    rw [run_nil, List.append_nil]
    exact hr
  | cons a as ih =>
    obtain ⟨stage, hawaits, hrest⟩ := Option.bind_eq_some_iff.mp h
    obtain rfl := Advance.eq_waits_of_awaited? hawaits
    have hp : s'.pending = some ⟨request, stage⟩ := hr.pending
    have hm := (s'.step_move a).runMove hs
    have hs' := (s'.step_move a).wellFormed hs
    rw [run_cons, ← List.singleton_append, ← List.append_assoc]
    generalize s'.step a = e at hm hs' ⊢
    cases hm with
    | free hnone => cases hp.symm.trans hnone
    | started hnone => cases hp.symm.trans hnone
    | advanced hp' _ _ hnext =>
      obtain rfl := Option.some.inj (hp.symm.trans hp')
      exact ih (hr.append hnext) hs' hrest

/-- **From a trigger on.**  The trigger has published that the run is loading, and from there on it
can be seen what has become of it. -/
theorem reflects_of_trigger {s : Session} {t : Turn} {as : List Step} {v : Advance}
    (hs : s.WellFormed)
    (hstarts : (Step.analyze t).startsRun (s.step (.analyze t)).2.answer = true)
    (h : (Advance.ofTurn .preparing t).through? as = some v) :
    ∃ request o os,
      (s.run (.analyze t :: as)).2 = { o with published := s.snapshot.loading :: o.published } :: os ∧
        s.atLoading.Reflects request v (s.run (.analyze t :: as)).1 (o :: os) := by
  have hm := (s.step_move (.analyze t)).runMove hs
  have hs' := (s.step_move (.analyze t)).wellFormed hs
  rw [run_cons]
  generalize s.step (.analyze t) = e at hm hs' hstarts ⊢
  cases hm with
  | free _ hnone => exact absurd hstarts (by simp [hnone])
  | started _ _ _ hr => exact ⟨_, _, _, rfl, hr.through hs' h⟩
  | advanced _ hnone => exact absurd hstarts (by simp [hnone])

/-! ## The run of a session and those on its record -/

/-- **What has become of the run with a step,** if there is one, is what the session waits for and
publishes.  The record before the step is to have the session's run pending and no other. -/
theorem RunMove.exists_standing {s : Session} {h : List (Step × Outcome)} {a : Step}
    {e : Session × Outcome} (hm : s.RunMove a e)
    (hh : awaitedOn h = s.pending.toList.map Run.stage) :
    ∃ v : Option Advance, standings (h ++ [(a, e.2)]) = v.toList ∧
      e.1.pending.map Run.stage = v.bind Advance.awaited? ∧
      e.2.published = (if a.restarts e.2.answer then [.idle] else []) ++
        (if a.startsRun e.2.answer then [s.snapshot.loading] else []) ++
        ((v.bind Advance.result?).map (.terminal s.snapshot.report)).toList := by
  rw [standings_concat, hh]
  cases hm with
  | free hp hstarts hp' _ hpublished =>
    refine ⟨none, ?_, ?_, ?_⟩
    · rw [hp, standing?_of_not_startsRun hstarts]
      rfl
    · rw [hp']
      rfl
    · rw [hpublished, hstarts]
      simp
  | @started t request s' o hp _ hstarts hr =>
    refine ⟨some (.ofTurn .preparing t), ?_, ?_, ?_⟩
    · rw [hp]
      exact congrArg Option.toList (standing?_of_startsRun hstarts [])
    · rw [hr.pending, Option.map_map]
      exact Option.map_id'
    · have hpublished := hr.published
      rw [List.flatMap_singleton] at hpublished
      simp only [hstarts, hpublished]
      rfl
  | @advanced a run s' o hp hstarts hrestarts hr =>
    refine ⟨some (.ofStep run.stage a), ?_, ?_, ?_⟩
    · rw [hp, standing?_of_not_startsRun hstarts]
      rfl
    · rw [hr.pending, Option.map_map]
      exact Option.map_id'
    · have hpublished := hr.published
      rw [List.flatMap_singleton] at hpublished
      simp only [hstarts, hrestarts, hpublished]
      rfl

/-- **A session waits for what the run on its record waits for.** -/
theorem awaitedOn_history (as : List Step) :
    awaitedOn (start.history as) = (start.run as).1.pending.toList.map Run.stage := by
  refine record_induction (P := fun s h => awaitedOn h = s.pending.toList.map Run.stage) rfl ?_ as
  intro s h a hs hh
  obtain ⟨v, hstandings, hpending, -⟩ := ((s.step_move a).runMove hs).exists_standing hh
  rw [awaitedOn, hstandings, filterMap_toList, ← hpending, Option.toList_map]

theorem runsPending_history (as : List Step) :
    runsPending (start.history as) = (start.run as).1.pending.toList.length := by
  rw [runsPending, awaitedOn_history, List.length_map]

/-- The record shows a pending run exactly when the session waits for one. -/
theorem runPending_iff (as : List Step) :
    RunPending (start.history as) ↔ (start.run as).1.pending.isSome := by
  rw [RunPending, runsPending_history]
  cases (start.run as).1.pending <;> simp

/-- **Loading is shown exactly while one run is pending.**  Whatever is done with a session and
whatever its engine does, on the record of all that happened so far at most one run has been
started and has neither finished nor broken down nor been dropped, as the replies of the engine and
the drops have it; the session shows that it is loading exactly when there is one; and what it
shows, and every snapshot it ever published, carries what its phase allows. -/
theorem phase_tracks_pending_run (as : List Step) :
    let s := (start.run as).1
    let h := start.history as
    runsPending h ≤ 1 ∧ (s.snapshot.phase = .loading ↔ runsPending h = 1) ∧
      s.snapshot.WellFormed ∧ ∀ x ∈ h, ∀ p ∈ x.2.published, p.WellFormed := by
  intro s h
  have hs : s.WellFormed := wellFormed_start.run as
  have hcount : runsPending h = s.pending.toList.length := runsPending_history as
  refine ⟨?_, ?_, hs.snapshot, wellFormed_start.published as⟩
  · rw [hcount]
    cases s.pending <;> simp
  · rw [hs.loading_iff, hcount]
    cases s.pending <;> simp

/-- Runs that end in every way: dropped at either call, broken down at either call, and with a
report. -/
def runsOfEveryKind : List Step :=
  [.load ⟨"m.st", "A", rfl⟩,
    .analyze ⟨.pending, .pending⟩, .drop,
    .analyze ⟨.answered (.ok ()), .pending⟩, .drop,
    .analyze ⟨.pending, .pending⟩, .resume ⟨.panicked "x", .pending⟩,
    .analyze ⟨.answered (.ok ()), .pending⟩, .resume ⟨.pending, .panicked "y"⟩,
    .analyze ⟨.pending, .pending⟩, .resume ⟨.answered (.ok ()), .answered (.ok "[]")⟩]

/-- From step to step, whether a run is pending, and what is shown. -/
theorem phases_of_runsOfEveryKind :
    runsOfEveryKind.inits.map (fun as => runsPending (start.history as)) =
        [0, 0, 1, 0, 1, 0, 1, 0, 1, 0, 1, 0] ∧
      runsOfEveryKind.inits.map (fun as => (start.run as).1.snapshot.phase) =
        [.idle, .idle, .loading, .failure, .loading, .failure, .loading, .failure, .loading,
          .failure, .loading, .success] ∧
      ∀ as ∈ runsOfEveryKind.inits,
        (start.run as).1.snapshot.phase = .loading ↔ runsPending (start.history as) = 1 :=
  ⟨by decide, by decide, fun as _ => (phase_tracks_pending_run as).2.1⟩

end Session

end PlcAudit
