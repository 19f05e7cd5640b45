import Mathlib.Data.List.Chain
import PlcAudit.Proofs.Session.Refusals

/-!
# What a session publishes

Whoever watches a session sees the snapshots that it publishes, one after the other, and nothing
else of it.  A run has many ways out: it may finish well or badly, the engine may break down at
either of its calls, and it may be dropped while it waits for one.  On each of them the watcher is
owed one last snapshot, and one only.  The session that gave it too many, say an abandoned one after
a success, would look the same in the end.

The account is kept on the record.  An entry may replace the input, start a run and end one, the
last two possibly at once, and for each of these one snapshot is due (`due`).  Whether an entry has
ended a run, and with which result, is known from following the run; a session that goes on loading
when the engine has given its last answer still owes the terminal snapshot.  That nothing else is
published is then a statement about single entries, and that a run publishes twice, however long it
takes and whatever happens meanwhile, is one about stretches of the record.

* `publications`, `lastPublished`: the snapshots on a record.
* `due`, with `Session.published_eq_due`: what an entry publishes.
* `Session.shows_lastPublished`: the snapshot on view is the one published last.
* `Session.publications_of_run`: what a run publishes.
* `Phase.LeadsTo`: which phases follow each other.
* `Session.publications_follow_runs`: the main statement.
-/

namespace PlcAudit

/-! ## Publications on record -/

/-- All snapshots on a record, in the order in which they were published. -/
def publications (h : List (Step × Outcome)) : List Snapshot := h.flatMap fun x => x.2.published

/-- The snapshot that was published last.  Before there is any, a session shows that it is idle. -/
def lastPublished (h : List (Step × Outcome)) : Snapshot := (publications h).getLast?.getD .idle

@[simp] theorem publications_nil : publications [] = [] := rfl

@[simp] theorem publications_cons (x : Step × Outcome) (h : List (Step × Outcome)) :
    publications (x :: h) = x.2.published ++ publications h := List.flatMap_cons

@[simp] theorem publications_append (h₁ h₂ : List (Step × Outcome)) :
    publications (h₁ ++ h₂) = publications h₁ ++ publications h₂ := List.flatMap_append

theorem lastPublished_concat (h : List (Step × Outcome)) (x : Step × Outcome) :
    lastPublished (h ++ [x]) = x.2.published.getLast?.getD (lastPublished h) := by
  rw [lastPublished, publications_append, publications_cons, publications_nil, List.append_nil,
    List.getLast?_append]
  cases x.2.published.getLast? <;> rfl

/-- **What is due for an entry** that comes after some others: the idle snapshot when the input is
replaced, the loading one when a run is started, and the terminal one of each run that has ended
with it.  The last two carry on the report that was published before. -/
def due (before : List (Step × Outcome)) (x : Step × Outcome) : List Snapshot :=
  let report := (lastPublished before).report
  (if x.1.restarts x.2.answer then [.idle] else []) ++
    (if x.1.startsRun x.2.answer then [{ phase := .loading, report, notice := none }] else []) ++
    (resultsAt (before ++ [x])).map (.terminal report)

/-- Whether a phase may be published right after another. -/
def Phase.LeadsTo : Phase → Phase → Prop
  | .loading, q => q = .success ∨ q = .failure
  | _, q => q = .idle ∨ q = .loading

theorem Phase.leadsTo_of_ne_loading {p q : Phase} (hp : p ≠ .loading) :
    p.LeadsTo q ↔ q = .idle ∨ q = .loading := by
  cases p with
  | loading => exact absurd rfl hp
  | idle | success | failure => exact Iff.rfl

/-- A run ends in a success or in a failure. -/
theorem Snapshot.leadsTo_terminal (report : Option Report) (result : Except Failure Report) :
    Phase.loading.LeadsTo (terminal report result).phase := by
  cases result with
  | ok r => exact Or.inl rfl
  | error f => exact Or.inr rfl

namespace Session

/-! ## What a step publishes -/

/-- A step leaves on view what it publishes last. -/
theorem RunMove.view_eq {s : Session} {a : Step} {e : Session × Outcome} (hm : s.RunMove a e) :
    e.1.snapshot = e.2.published.getLast?.getD s.snapshot := by
  have hlast {p q : Snapshot} {v : Advance} {o : Outcome} (report : Option Report)
      (hview : p = (v.result?.map (.terminal report)).getD q)
      (hpublished : [o].flatMap (·.published) = (v.result?.map (.terminal report)).toList) :
      p = o.published.getLast?.getD q := by
    rw [List.flatMap_singleton] at hpublished
    rw [hview, hpublished]
    cases v.result? <;> rfl
  cases hm with
  | free _ _ _ hview => exact hview
  | started _ _ _ hr =>
    rw [List.getLast?_cons]
    exact hlast _ hr.view hr.published
  | advanced _ _ _ hr => exact hlast _ hr.view hr.published

/-- **The snapshot on view is the one that was published last.** -/
theorem shows_lastPublished (as : List Step) :
    (start.run as).1.snapshot = lastPublished (start.history as) := by
  refine record_induction (P := fun s h => s.snapshot = lastPublished h) rfl ?_ as
  intro s h a hs hshows
  rw [lastPublished_concat, ← hshows]
  exact ((s.step_move a).runMove hs).view_eq

/-- A step that replaces the input publishes the idle snapshot. -/
theorem RunMove.published_of_restarts {s : Session} {a : Step} {e : Session × Outcome}
    (hm : s.RunMove a e) (h : a.restarts e.2.answer = true) : e.2.published = [.idle] := by
  cases hm with
  | free _ _ _ _ hpublished => rw [hpublished, if_pos h]
  | started => cases h
  | advanced _ _ hrestarts => exact absurd h (by simp [hrestarts])

theorem publications_history (s : Session) (as : List Step) :
    publications (s.history as) = (s.run as).2.flatMap (·.published) := by
  induction as generalizing s with
  | nil => rfl
  | cons a as ih => rw [history_cons, publications_cons, ih, run_cons, List.flatMap_cons]

/-- **An entry publishes what is due for it,** and ends one run at most. -/
theorem published_eq_due {as : List Step} {before after : List (Step × Outcome)}
    {x : Step × Outcome} (h : start.history as = before ++ x :: after) :
    x.2.published = due before x ∧ (resultsAt (before ++ [x])).length ≤ 1 := by
  obtain ⟨bs, a, rfl, rfl⟩ := history_eq_append_cons h
  have hm := ((start.run bs).1.step_move a).runMove (wellFormed_start.run bs)
  obtain ⟨v, hstandings, -, hpublished⟩ := hm.exists_standing (awaitedOn_history bs)
  have hresults : resultsAt (start.history bs ++ [(a, ((start.run bs).1.step a).2)]) =
      (v.bind Advance.result?).toList := by
    rw [resultsAt, hstandings, filterMap_toList]
  rw [due, hresults, hpublished, ← shows_lastPublished, Option.toList_map]
  refine ⟨rfl, ?_⟩
  cases v.bind Advance.result? <;> simp

/-- A run that has come some way has published that it is loading, and, if it has ended, how. -/
theorem publications_of_run {s : Session} {as : List Step} {v : Advance} (hs : s.WellFormed)
    (h : standing? (s.history as) = some v) :
    publications (s.history as) = s.snapshot.loading ::
      (v.result?.map (.terminal s.snapshot.report)).toList := by
  cases as with
  | nil => cases h
  | cons a as =>
    rw [history_cons] at h
    have hstarts := startsRun_of_standing?_eq_some h
    cases a with
    | analyze t =>
      rw [standing?_of_startsRun hstarts, map_fst_history] at h
      obtain ⟨request, o, os, hos, hr⟩ := reflects_of_trigger hs hstarts h
      have hpublished := hr.published
      rw [publications_history, hos]
      rw [List.flatMap_cons] at hpublished ⊢
      rw [List.cons_append, hpublished]
      rfl
    | load | setPolicy | reset | resume | drop => cases hstarts

/-! ## Phases in order -/

/-- What a step publishes continues what was on view before it. -/
theorem RunMove.phases {s : Session} {a : Step} {e : Session × Outcome} (hm : s.RunMove a e)
    (hs : s.WellFormed) :
    (s.snapshot :: e.2.published).IsChain fun p q => p.phase.LeadsTo q.phase := by
  have hended (p : Snapshot) (hp : p.phase = .loading) (v : Advance) (report : Option Report) :
      (p :: (v.result?.map (.terminal report)).toList).IsChain
        fun p q => p.phase.LeadsTo q.phase := by
    cases v.result? with
    | none => exact .singleton _
    | some result =>
      refine .cons_cons ?_ (.singleton _)
      rw [hp]
      exact Snapshot.leadsTo_terminal _ _
  have hfree (hp : s.pending = none) {q : Phase} (hq : q = .idle ∨ q = .loading) :
      s.snapshot.phase.LeadsTo q := by
    refine (Phase.leadsTo_of_ne_loading fun hl => ?_).mpr hq
    rw [hs.loading_iff, hp] at hl
    cases hl
  cases hm with
  | free hp _ _ _ hpublished =>
    rw [hpublished]
    split
    · exact .cons_cons (hfree hp (Or.inl rfl)) (.singleton _)
    · exact .singleton _
  | started hp _ _ hr =>
    have hpublished := hr.published
    rw [List.flatMap_singleton] at hpublished
    refine .cons_cons (hfree hp (Or.inr rfl)) ?_
    rw [hpublished]
    exact hended _ rfl _ _
  | advanced hp _ _ hr =>
    have hpublished := hr.published
    rw [List.flatMap_singleton] at hpublished
    rw [hpublished]
    exact hended _ (hs.phase_of_pending hp) _ _

/-- **Published phases follow each other in order.** -/
theorem phases_in_order (as : List Step) :
    (Snapshot.idle :: publications (start.history as)).IsChain
      fun p q => p.phase.LeadsTo q.phase := by
  refine (record_induction (P := fun s h => s.snapshot = lastPublished h ∧
    (Snapshot.idle :: publications h).IsChain fun p q => p.phase.LeadsTo q.phase) ?_ ?_ as).2
  · exact ⟨rfl, .singleton _⟩
  · rintro s h a hs ⟨hshows, hchain⟩
    have hm := (s.step_move a).runMove hs
    refine ⟨by rw [lastPublished_concat, ← hshows]; exact hm.view_eq, ?_⟩
    rw [publications_append, publications_cons, publications_nil, List.append_nil,
      ← List.cons_append, List.isChain_append]
    have hnext := hm.phases hs
    rw [hshows, List.isChain_cons] at hnext
    refine ⟨hchain, hnext.2, fun p hp q hq => ?_⟩
    rw [List.getLast?_cons, Option.mem_def, Option.some.injEq] at hp
    exact hp ▸ hnext.1 q hq

/-! ## The main statement -/

/-- **What a record publishes.**  When a run ends, and with which result, is told by the replies of
the engine and the drops; the reports that are mentioned are those of the snapshot that was published
before the entry or the run in question. -/
structure PublishesAsDue (h : List (Step × Outcome)) : Prop where
  /-- Every entry publishes what is due for it, and nothing else. -/
  entry : ∀ before x after, h = before ++ x :: after → x.2.published = due before x
  /-- No two runs end with one entry, so that it has one terminal snapshot at most. -/
  one_end : ∀ before x after, h = before ++ x :: after → (resultsAt (before ++ [x])).length ≤ 1
  /-- A load or a reset that is not refused publishes the idle snapshot. -/
  restart : ∀ x ∈ h, x.1.restarts x.2.answer = true → x.2.published = [.idle]
  /-- A new policy, a run that is asked and does not end, and a refused step publish nothing. -/
  silent : ∀ before x after, h = before ++ x :: after → (∃ p, x.1 = .setPolicy p) ∨
    (∃ t, x.1 = .resume t ∧ resultsAt (before ++ [x]) = []) ∨ (∃ f, x.2.answer = .refused f) →
      x.2.published = []
  /-- A run that has not ended yet has published that it is loading, with the old report. -/
  open_run : ∀ before run after stage, h = before ++ (run ++ after) →
    standing? run = some (.waits stage) →
      publications run =
        [{ phase := .loading, report := (lastPublished before).report, notice := none }]
  /-- A run that has ended has published twice: that it is loading, with the old report, and how it
  ended.  A run that was dropped or broke down is an abandoned failure with the old report. -/
  ended_run : ∀ before run after v result, h = before ++ (run ++ after) → standing? run = some v →
    v.result? = some result →
      publications run =
        [{ phase := .loading, report := (lastPublished before).report, notice := none },
          .terminal (lastPublished before).report result]
  /-- Phases follow each other in order. -/
  phases : (Snapshot.idle :: publications h).IsChain fun p q => p.phase.LeadsTo q.phase

/-- The same of a run that stands anywhere on a record. -/
theorem publications_of_run_on {as : List Step} {before run after : List (Step × Outcome)}
    {v : Advance} (h : start.history as = before ++ (run ++ after)) (hrun : standing? run = some v) :
    publications run =
      { phase := .loading, report := (lastPublished before).report, notice := none } ::
        (v.result?.map (.terminal (lastPublished before).report)).toList := by
  obtain ⟨bs, cs, rfl, rfl, hcs⟩ := history_eq_append h
  obtain ⟨ds, es, rfl, rfl, -⟩ := history_eq_append hcs.symm
  rw [← shows_lastPublished]
  exact publications_of_run (wellFormed_start.run bs) hrun

/-- **Publications follow the runs.**  Whatever is done with a session and whatever its engine does,
it publishes the idle snapshot when its input is replaced, one loading snapshot when a run is
started and one terminal snapshot when the run ends, whichever way it does; nothing is published
between these two, nothing for a run that has ended, and nothing by any other step.  Between the
phases idle, success and failure there is always a loading one, unless the input is replaced. -/
theorem publications_follow_runs (as : List Step) : PublishesAsDue (start.history as) where
  entry before x after h := (published_eq_due h).1
  one_end before x after h := (published_eq_due h).2
  restart x hx hrestarts := by
    obtain ⟨before, after, h⟩ := List.append_of_mem hx
    obtain ⟨bs, a, -, rfl⟩ := history_eq_append_cons h
    exact (((start.run bs).1.step_move a).runMove (wellFormed_start.run bs)).published_of_restarts
      hrestarts
  silent before x after h hsilent := by
    rcases hsilent with ⟨p, hset⟩ | ⟨t, hasked, hresults⟩ | ⟨f, hrefused⟩
    · obtain ⟨bs, a, -, rfl⟩ := history_eq_append_cons h
      obtain rfl : a = .setPolicy p := hset
      rfl
    · rw [(published_eq_due h).1, due, hresults, hasked]
      rfl
    · have hx : x ∈ start.history as := h ▸ List.mem_append_right _ List.mem_cons_self
      exact (nothing_done_of_isRefusal hx (by rw [hrefused]; rfl)).1
  open_run before run after stage h hrun := publications_of_run_on h hrun
  ended_run before run after v result h hrun hresult := by
    rw [publications_of_run_on h hrun, hresult]
    rfl
  phases := phases_in_order as

/-- What is published when a run is dropped at its first call, when the engine breaks down at the
second one, and when there is a report. -/
theorem publications_of_runsOfEveryKind :
    let h := start.history runsOfEveryKind
    let loading : Snapshot := { phase := .loading }
    let abandoned : Snapshot := .terminal none (.error .abandoned)
    standing? ((h.drop 1).take 2) = some .dropped ∧
      standing? ((h.drop 7).take 2) = some (.breaks "y") ∧
      standing? (h.drop 9) = some (.ends (.ok (.ofFindings []))) ∧
      publications ((h.drop 1).take 2) = [loading, abandoned] ∧
      publications ((h.drop 7).take 2) = [loading, abandoned] ∧
      publications (h.drop 9) = [loading, .success (.ofFindings [])] ∧
      (publications h).map (·.phase) = [.idle, .loading, .failure, .loading, .failure, .loading,
        .failure, .loading, .failure, .loading, .success] := by
  intro h loading abandoned
  have hlast : Report.ofOutput "[]" = .ok (.ofFindings []) := by rfl
  have hends : standing? (h.drop 9) = some (.ends (.ok (.ofFindings []))) :=
    congrArg (fun r => some (Advance.ends r)) hlast
  have hruns := publications_follow_runs runsOfEveryKind
  refine ⟨rfl, rfl, hends, ?_, ?_, ?_, by decide⟩
  · exact hruns.ended_run (h.take 1) _ (h.drop 3) .dropped _ rfl rfl rfl
  · exact hruns.ended_run (h.take 7) _ (h.drop 9) (.breaks "y") _ rfl rfl rfl
  · exact hruns.ended_run (h.take 9) _ [] _ _ rfl hends rfl

end Session

end PlcAudit
