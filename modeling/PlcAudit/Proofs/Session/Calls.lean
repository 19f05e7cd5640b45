import PlcAudit.Proofs.Session.Requests
import PlcAudit.Proofs.Session.Schedules

/-!
# How an engine is called

An engine has two calls, and entering either of them may do something that cannot be undone.  A run
therefore enters its preparation once and its analysis at most once, and the analysis only when the
preparation has answered well.  What makes this less than obvious is that a run is not carried out
in one go: it is asked in one step and asked again in others, and each time it has to know how far
it has come.  A run that had forgotten would enter a call twice; one that is dropped or has ended
must not be asked at all.

The statement is about the record.  The entries that ask the engine are collected into runs, each
beginning with its trigger (`runsOn`), and the calls of an entry are determined by the entries of
its own run that stand before it (`callsDue`).  How far a run has come is read off the replies of
the preparation, and the stage that the session remembers is compared to it (`HasReached`).

* `runsOn`, `callsOn`: the runs and the calls on a record.
* `callsDue`: the calls that an entry owes its run.
* `Session.CallMove`, with `Session.Move.callMove`: the three things a step can do about calls.
* `EntersAsDue.callsOn_eq`: all calls of one run.
* `Session.KeepsRuns`, with `Session.CallMove.keepsRuns`: the invariant.
* `Session.callsOn_history`: all calls on a record are those of its runs.
* `Session.calls_follow_runs`: the main statement.
-/

namespace PlcAudit

/-! ## Runs and calls on record -/

/-- Whether a step has asked the pending run again: a resumption does, unless there is no run. -/
def Step.asksAgain : Step → Answer → Bool
  | .resume _, .noRun => false
  | .resume _, _ => true
  | _, _ => false

/-- Whether a step has asked the engine, either for a run that it has started or for one that was
pending. -/
def Step.asksEngine (a : Step) (answer : Answer) : Bool := a.startsRun answer || a.asksAgain answer

/-- One more entry of a record begins a new run, belongs to the newest, or to none. -/
def addEntry (rs : List (List (Step × Outcome))) (x : Step × Outcome) :
    List (List (Step × Outcome)) :=
  if x.1.startsRun x.2.answer then [x] :: rs
  else if x.1.asksAgain x.2.answer then rs.modifyHead (· ++ [x])
  else rs

/-- The runs on a record, the newest first.  Each is the list of the entries in which the engine was
asked for it, from its trigger on. -/
def runsOn (h : List (Step × Outcome)) : List (List (Step × Outcome)) := h.foldl addEntry []

/-- The calls on a record, in the order in which they were entered. -/
def callsOn (h : List (Step × Outcome)) : List Call := h.flatMap fun x => x.2.calls

/-- How many runs a record shows to have been started. -/
def runsStarted (h : List (Step × Outcome)) : Nat := h.countP fun x => x.1.startsRun x.2.answer

/-- Whether a call is one of the analysis. -/
def Call.isAnalysis : Call → Bool
  | .prepare => false
  | .analyze _ => true

/-- The turn in which a step asks the engine, if it asks it. -/
def Step.askedTurn? : Step → Option Turn
  | .analyze t | .resume t => some t
  | _ => none

/-- What the preparation of a run has answered in these entries of it. -/
def preparedAs? (r : List (Step × Outcome)) : Option (Except EngineFault Unit) :=
  preparationAnswer? (r.filterMap fun x => x.1.askedTurn?)

/-- Whether the preparation of a run has answered well in these entries of it. -/
def isPrepared (r : List (Step × Outcome)) : Bool :=
  match preparedAs? r with
  | some (.ok ()) => true
  | _ => false

/-- **The calls that an entry owes its run,** given the entries of the run that stand before it: the
preparation if there are none, and the analysis if this is the entry in which the preparation has
answered well. -/
def callsDue (q : Request) (before : List (Step × Outcome)) (x : Step × Outcome) : List Call :=
  (if before = [] then [.prepare] else []) ++
    if !isPrepared before && isPrepared (before ++ [x]) then [.analyze q] else []

/-- Every entry of a run enters the calls that it owes it, and no others. -/
def EntersAsDue (q : Request) (r : List (Step × Outcome)) : Prop :=
  ∀ before x after, r = before ++ x :: after → x.2.calls = callsDue q before x

/-- The first entry of a run is its trigger, and the others ask it again. -/
def BeginsWithTrigger (r : List (Step × Outcome)) : Prop :=
  ∃ trigger rest, r = trigger :: rest ∧ trigger.1.startsRun trigger.2.answer = true ∧
    ∀ x ∈ rest, x.1.asksAgain x.2.answer = true

theorem BeginsWithTrigger.ne_nil {r : List (Step × Outcome)} (h : BeginsWithTrigger r) :
    r ≠ [] := by
  obtain ⟨trigger, rest, rfl, -⟩ := h
  exact List.cons_ne_nil _ _

theorem BeginsWithTrigger.concat {r : List (Step × Outcome)} (h : BeginsWithTrigger r)
    {x : Step × Outcome} (hx : x.1.asksAgain x.2.answer = true) : BeginsWithTrigger (r ++ [x]) := by
  obtain ⟨trigger, rest, rfl, htrigger, hrest⟩ := h
  refine ⟨trigger, rest ++ [x], rfl, htrigger, ?_⟩
  rw [List.forall_mem_append, List.forall_mem_singleton]
  exact ⟨hrest, hx⟩

theorem runsOn_concat (h : List (Step × Outcome)) (x : Step × Outcome) :
    runsOn (h ++ [x]) = addEntry (runsOn h) x := by
  rw [runsOn, List.foldl_concat]
  rfl

theorem addEntry_of_startsRun {rs : List (List (Step × Outcome))} {x : Step × Outcome}
    (hx : x.1.startsRun x.2.answer = true) : addEntry rs x = [x] :: rs := if_pos hx

theorem addEntry_of_asksAgain {r : List (Step × Outcome)} {rs : List (List (Step × Outcome))}
    {x : Step × Outcome} (hx : x.1.asksAgain x.2.answer = true) :
    addEntry (r :: rs) x = (r ++ [x]) :: rs := by
  obtain ⟨a, o⟩ := x
  cases a with
  | resume t => rw [addEntry, if_neg (by simp [Step.startsRun]), if_pos hx, List.modifyHead_cons]
  | load | setPolicy | reset | analyze | drop => cases hx

theorem addEntry_of_not_asksEngine {rs : List (List (Step × Outcome))} {x : Step × Outcome}
    (hx : x.1.asksEngine x.2.answer = false) : addEntry rs x = rs := by
  rw [Step.asksEngine, Bool.or_eq_false_iff] at hx
  rw [addEntry, if_neg (by simp [hx.1]), if_neg (by simp [hx.2])]

/-- An entry that asks the engine is added to those of the runs, and no other is. -/
theorem flatten_addEntry {rs : List (List (Step × Outcome))} {x : Step × Outcome}
    (h : x.1.asksAgain x.2.answer = true → rs ≠ []) :
    (addEntry rs x).reverse.flatten =
      rs.reverse.flatten ++ [x].filter fun x => x.1.asksEngine x.2.answer := by
  cases hstarts : x.1.startsRun x.2.answer with
  | true =>
    rw [addEntry_of_startsRun hstarts, List.reverse_cons, List.flatten_concat]
    simp [Step.asksEngine, hstarts]
  | false =>
    cases hagain : x.1.asksAgain x.2.answer with
    | true =>
      obtain ⟨r, rs, rfl⟩ := List.exists_cons_of_ne_nil (h hagain)
      rw [addEntry_of_asksAgain hagain, List.reverse_cons, List.reverse_cons, List.flatten_concat,
        List.flatten_concat, List.append_assoc]
      simp [Step.asksEngine, hagain]
    | false =>
      have hasks : x.1.asksEngine x.2.answer = false := by
        rw [Step.asksEngine, hstarts, hagain, Bool.or_false]
      rw [addEntry_of_not_asksEngine hasks]
      simp [hasks]

/-- There are as many runs on a record as have been started. -/
theorem length_runsOn (h : List (Step × Outcome)) : (runsOn h).length = runsStarted h := by
  induction h using List.reverseRecOn with
  | nil => rfl
  | append_singleton h x ih =>
    rw [runsOn_concat, runsStarted, List.countP_append, List.countP_singleton, addEntry]
    split
    · rw [List.length_cons, ih]
      rfl
    · split
      · rw [List.length_modifyHead, ih]
        rfl
      · exact ih

@[simp] theorem callsOn_append (h₁ h₂ : List (Step × Outcome)) :
    callsOn (h₁ ++ h₂) = callsOn h₁ ++ callsOn h₂ := List.flatMap_append

theorem callsOn_singleton (x : Step × Outcome) : callsOn [x] = x.2.calls :=
  List.flatMap_singleton ..

/-- Entries without calls do not count. -/
theorem callsOn_filter {h : List (Step × Outcome)} {p : Step × Outcome → Bool}
    (hp : ∀ x ∈ h, p x = false → x.2.calls = []) : callsOn (h.filter p) = callsOn h := by
  induction h with
  | nil => rfl
  | cons x h ih =>
    obtain ⟨hx, hrest⟩ := List.forall_mem_cons.mp hp
    have htail : callsOn (x :: h) = x.2.calls ++ callsOn h := List.flatMap_cons
    cases hpx : p x with
    | true =>
      rw [List.filter_cons_of_pos hpx, htail, ← ih hrest]
      exact List.flatMap_cons
    | false =>
      rw [List.filter_cons_of_neg (by simp [hpx]), htail, hx hpx, ih hrest, List.nil_append]

/-! ## What the preparation has answered -/

theorem preparedAs?_concat {r : List (Step × Outcome)} {x : Step × Outcome} {t : Turn}
    (hx : x.1.askedTurn? = some t) :
    preparedAs? (r ++ [x]) = (preparedAs? r).or t.preparation.answer? := by
  have hone : [x].filterMap (fun x => x.1.askedTurn?) = [t] := by simp [hx]
  rw [preparedAs?, List.filterMap_append, hone, preparationAnswer?, List.findSome?_append,
    List.findSome?_singleton]
  rfl

theorem isPrepared_iff (r : List (Step × Outcome)) :
    isPrepared r = true ↔ preparedAs? r = some (.ok ()) := by
  unfold isPrepared
  rcases preparedAs? r with _ | _ | _ <;> simp

/-- A run that is prepared stays so. -/
theorem isPrepared_concat {r : List (Step × Outcome)} (h : isPrepared r = true)
    (x : Step × Outcome) : isPrepared (r ++ [x]) = true := by
  rw [isPrepared_iff] at h ⊢
  rw [preparedAs?, List.filterMap_append, preparationAnswer?, List.findSome?_append]
  rw [preparedAs?, preparationAnswer?] at h
  rw [h]
  rfl

/-! ## The calls of one run -/

theorem entersAsDue_nil (q : Request) : EntersAsDue q [] := by
  intro before x after h
  simp at h

theorem EntersAsDue.concat {q : Request} {r : List (Step × Outcome)} {x : Step × Outcome}
    (hr : EntersAsDue q r) (hx : x.2.calls = callsDue q r x) : EntersAsDue q (r ++ [x]) := by
  intro before y after h
  induction after using List.reverseRecOn with
  | nil =>
    obtain ⟨rfl, hlast⟩ := List.append_inj' h rfl
    obtain rfl := List.singleton_inj.mp hlast
    exact hx
  | append_singleton after z =>
    rw [← List.cons_append, ← List.append_assoc] at h
    exact hr before y after (List.append_inj' h rfl).1

theorem EntersAsDue.of_concat {q : Request} {r : List (Step × Outcome)} {x : Step × Outcome}
    (h : EntersAsDue q (r ++ [x])) : EntersAsDue q r ∧ x.2.calls = callsDue q r x := by
  refine ⟨fun before y after hr => ?_, h r x [] rfl⟩
  exact h before y (after ++ [x]) (by rw [hr, List.append_assoc, List.cons_append])

/-- **All calls of a run:** the preparation, and the analysis if the run is prepared. -/
theorem EntersAsDue.callsOn_eq {q : Request} {r : List (Step × Outcome)} (hr : EntersAsDue q r)
    (hne : r ≠ []) : callsOn r = .prepare :: if isPrepared r then [.analyze q] else [] := by
  induction r using List.reverseRecOn with
  | nil => exact absurd rfl hne
  | append_singleton r x ih =>
    obtain ⟨hr', hx⟩ := hr.of_concat
    rw [callsOn_append, callsOn_singleton, hx, callsDue]
    by_cases hfirst : r = []
    · subst hfirst
      rfl
    · rw [ih hr' hfirst, if_neg hfirst]
      cases hp : isPrepared r with
      | false => simp
      | true => simp [isPrepared_concat hp x]

/-- **A run that is asked again enters no call that it has entered before.** -/
theorem EntersAsDue.notMem_callsOn {q : Request} {before after : List (Step × Outcome)}
    {x : Step × Outcome} (hr : EntersAsDue q (before ++ x :: after)) {c : Call}
    (hc : c ∈ x.2.calls) : c ∉ callsOn before := by
  have hnodup : (callsOn (before ++ x :: after)).Nodup := by
    rw [hr.callsOn_eq (by simp)]
    cases isPrepared (before ++ x :: after) <;> simp
  rw [callsOn_append, List.nodup_append] at hnodup
  intro hbefore
  exact hnodup.2.2 c hbefore c (List.mem_append_left _ hc) rfl

/-- Runs that enter their calls in this way enter one preparation each, and an analysis each that is
prepared. -/
theorem count_callsOn_of_runs {rs : List (List (Step × Outcome))}
    (h : ∀ r ∈ rs, r ≠ [] ∧ ∃ q, EntersAsDue q r) :
    (rs.flatMap callsOn).count .prepare = rs.length ∧
      (rs.flatMap callsOn).countP Call.isAnalysis = rs.countP isPrepared := by
  induction rs with
  | nil => exact ⟨rfl, rfl⟩
  | cons r rs ih =>
    obtain ⟨⟨hne, q, hr⟩, hrs⟩ := List.forall_mem_cons.mp h
    obtain ⟨hprepare, hanalyze⟩ := ih hrs
    rw [List.flatMap_cons, List.count_append, List.countP_append, hprepare, hanalyze,
      hr.callsOn_eq hne, List.countP_cons, List.length_cons]
    cases hp : isPrepared r with
    | false => simp [Call.isAnalysis, hp, Nat.add_comm]
    | true => simp [Call.isAnalysis, hp, Nat.add_comm]

/-! ## How far a run has come -/

/-- The stage of a run that has got so far: it waits for the preparation as long as that has not
answered, and for the analysis when it has answered well. -/
def HasReached (r : List (Step × Outcome)) : Stage → Prop
  | .preparing => preparedAs? r = none
  | .analyzing => preparedAs? r = some (.ok ())

/-- At the stage that it has reached a run enters the analysis in the very turn in which its
preparation answers well. -/
theorem HasReached.callsEntered_eq {r : List (Step × Outcome)} {stage : Stage} {x : Step × Outcome}
    {t : Turn} (hr : HasReached r stage) (hx : x.1.askedTurn? = some t) (q : Request) :
    callsEntered stage t q =
      if !isPrepared r && isPrepared (r ++ [x]) then [.analyze q] else [] := by
  have hnext := preparedAs?_concat (r := r) hx
  cases stage with
  | analyzing =>
    have hp : isPrepared r = true := (isPrepared_iff r).mpr hr
    rw [hp]
    rfl
  | preparing =>
    have hnone : preparedAs? r = none := hr
    rw [hnone, Option.none_or] at hnext
    simp only [isPrepared, hnext, hnone, callsEntered]
    rcases t.preparation with _ | (_ | _) | _ <;> rfl

/-- A run that goes on waiting has reached the stage at which it waits. -/
theorem HasReached.concat {r : List (Step × Outcome)} {stage next : Stage} {x : Step × Outcome}
    {t : Turn} (hr : HasReached r stage) (hx : x.1.askedTurn? = some t)
    (hwaits : Advance.ofTurn stage t = .waits next) : HasReached (r ++ [x]) next := by
  have hnext := preparedAs?_concat (r := r) hx
  cases stage with
  | analyzing =>
    obtain ⟨-, rfl⟩ := Advance.ofAnalysis_eq_waits hwaits
    have hready : preparedAs? r = some (.ok ()) := hr
    rw [hready] at hnext
    exact hnext
  | preparing =>
    have hnone : preparedAs? r = none := hr
    rw [hnone, Option.none_or] at hnext
    rcases hreply : t.preparation with _ | (fault | u) | m
    · obtain rfl : Stage.preparing = next := by simpa [Advance.ofTurn, hreply] using hwaits
      rw [HasReached, hnext, hreply]
      rfl
    · simp [Advance.ofTurn, hreply] at hwaits
    · have hwaits' : Advance.ofAnalysis t.analysis = .waits next := by
        simpa [Advance.ofTurn, hreply] using hwaits
      obtain ⟨-, rfl⟩ := Advance.ofAnalysis_eq_waits hwaits'
      rw [HasReached, hnext, hreply]
      rfl
    · simp [Advance.ofTurn, hreply] at hwaits

namespace Session

/-! ## What a step does about calls -/

/-- **What a step does about calls.**  It makes none, or it starts a run, or it asks the pending run
again.  A run that is pending afterwards is the one that was asked. -/
inductive CallMove (s : Session) : Step → Session × Outcome → Prop where
  | silent {a : Step} {e : Session × Outcome} (hcalls : e.2.calls = [])
      (hasks : a.asksEngine e.2.answer = false)
      (hpending : ∀ run, e.1.pending = some run → s.pending = some run) : CallMove s a e
  | started {t : Turn} {e : Session × Outcome} (request : Request)
      (hstarts : (Step.analyze t).startsRun e.2.answer = true)
      (hcalls : e.2.calls = .prepare :: callsEntered .preparing t request)
      (hpending : ∀ run, e.1.pending = some run →
        run.request = request ∧ Advance.ofTurn .preparing t = .waits run.stage) :
      CallMove s (.analyze t) e
  | askedAgain {t : Turn} {e : Session × Outcome} {run : Run} (hp : s.pending = some run)
      (hasks : (Step.resume t).asksAgain e.2.answer = true)
      (hcalls : e.2.calls = callsEntered run.stage t run.request)
      (hpending : ∀ run', e.1.pending = some run' →
        run'.request = run.request ∧ Advance.ofTurn run.stage t = .waits run'.stage) :
      CallMove s (.resume t) e

/-- A run that is pending after it was asked waits for what the engine's turn has it wait for. -/
theorem waits_of_pending_settle {s : Session} {request : Request} {calls : List Call} {v : Advance}
    {run : Run} (h : (s.settle request calls v).1.pending = some run) :
    run.request = request ∧ v = .waits run.stage := by
  have hpending := (s.reflects_settle request calls v).pending
  obtain ⟨stage, hawaits, rfl⟩ := Option.map_eq_some_iff.mp (hpending.symm.trans h)
  exact ⟨rfl, Advance.eq_waits_of_awaited? hawaits⟩

/-- A resumption that asks a run has asked it, whatever comes of it. -/
theorem asksAgain_settle (s : Session) (t : Turn) (request : Request) (calls : List Call)
    (v : Advance) : (Step.resume t).asksAgain (s.settle request calls v).2.answer = true := by
  rcases v with _ | (_ | _) | _ | _ <;> rfl

theorem Move.callMove {s : Session} {a : Step} {e : Session × Outcome} (hm : s.Move a e) :
    s.CallMove a e := by
  cases hm with
  | refused hr =>
    have hpending : ∀ run, s.pending = some run → s.pending = some run := fun run h => h
    cases a with
    | load | reset | analyze => exact .silent rfl rfl hpending
    | setPolicy | resume | drop => cases hr
  | loaded hl | reset hl => exact .silent rfl rfl fun run h => h
  | policySet => exact .silent rfl rfl fun run h => h
  | @started t request hq hl =>
    rw [startRun_eq]
    exact .started request (s.atLoading.startsRun_settle ..) (calls_settle ..) fun run h =>
      waits_of_pending_settle h
  | @resumed t run hp =>
    rw [askAgain_eq]
    exact .askedAgain hp (s.asksAgain_settle ..) (calls_settle ..) fun run' h =>
      waits_of_pending_settle h
  | dropped hp => exact .silent rfl rfl fun run h => by cases h
  | idle ha hp => rcases ha with rfl | ⟨t, rfl⟩ <;> exact .silent rfl rfl fun run h => h

theorem CallMove.calls_eq_nil {s : Session} {a : Step} {e : Session × Outcome}
    (hm : s.CallMove a e) (hasks : a.asksEngine e.2.answer = false) : e.2.calls = [] := by
  rw [Step.asksEngine, Bool.or_eq_false_iff] at hasks
  cases hm with
  | silent hcalls => exact hcalls
  | started request hstarts => exact absurd hasks.1 (by simp [hstarts])
  | askedAgain hp hagain => exact absurd hasks.2 (by simp [hagain])

/-! ## All runs of a record -/

/-- **The invariant.**  The runs are made up of the entries that ask the engine; every run on record
has entered what it owed; and the pending run, if there is one, is the newest on record and has
reached the stage that the session remembers. -/
structure KeepsRuns (s : Session) (h : List (Step × Outcome)) : Prop where
  asked : (runsOn h).reverse.flatten = h.filter fun x => x.1.asksEngine x.2.answer
  entered : ∀ r ∈ runsOn h, BeginsWithTrigger r ∧ ∃ q, EntersAsDue q r
  pending : ∀ run, s.pending = some run →
    ∃ r rs, runsOn h = r :: rs ∧ EntersAsDue run.request r ∧ HasReached r run.stage

/-- **Every step keeps the invariant.** -/
theorem CallMove.keepsRuns {s : Session} {h : List (Step × Outcome)} {a : Step}
    {e : Session × Outcome} (hm : s.CallMove a e) (hk : s.KeepsRuns h) :
    e.1.KeepsRuns (h ++ [(a, e.2)]) := by
  have hasked (hruns : a.asksAgain e.2.answer = true → runsOn h ≠ []) :
      (runsOn (h ++ [(a, e.2)])).reverse.flatten =
        (h ++ [(a, e.2)]).filter fun x => x.1.asksEngine x.2.answer := by
    rw [runsOn_concat, flatten_addEntry hruns, hk.asked, List.filter_append]
  cases hm with
  | silent hcalls hasks hpending =>
    have hsame : runsOn (h ++ [(a, e.2)]) = runsOn h := by
      rw [runsOn_concat]
      exact addEntry_of_not_asksEngine hasks
    rw [Step.asksEngine, Bool.or_eq_false_iff] at hasks
    constructor
    · exact hasked fun hagain => absurd hagain (by simp [hasks.2])
    · rw [hsame]
      exact hk.entered
    · intro run hrun
      rw [hsame]
      exact hk.pending run (hpending run hrun)
  | @started t _ request hstarts hcalls hpending =>
    -- the new run is asked like one without entries that waits for its preparation
    have hnew : runsOn (h ++ [(.analyze t, e.2)]) = [(.analyze t, e.2)] :: runsOn h := by
      rw [runsOn_concat]
      exact addEntry_of_startsRun hstarts
    have hreached : HasReached [] .preparing := rfl
    have hdue : EntersAsDue request [(.analyze t, e.2)] := by
      refine (entersAsDue_nil request).concat (r := []) ?_
      rw [hcalls, hreached.callsEntered_eq (x := (.analyze t, e.2)) rfl, callsDue, if_pos rfl]
      rfl
    constructor
    · exact hasked fun hagain => by cases hagain
    · rw [hnew, List.forall_mem_cons]
      exact ⟨⟨⟨_, [], rfl, hstarts, by simp⟩, request, hdue⟩, hk.entered⟩
    · intro run hrun
      obtain ⟨rfl, hwaits⟩ := hpending run hrun
      exact ⟨_, _, hnew, hdue, hreached.concat (x := (.analyze t, e.2)) rfl hwaits⟩
  | @askedAgain t _ run hp hasks hcalls hpending =>
    obtain ⟨r, rs, hruns, hdue, hreached⟩ := hk.pending run hp
    have hlonger : runsOn (h ++ [(.resume t, e.2)]) = (r ++ [(.resume t, e.2)]) :: rs := by
      rw [runsOn_concat, hruns]
      exact addEntry_of_asksAgain hasks
    have hentered := hk.entered
    rw [hruns, List.forall_mem_cons] at hentered
    obtain ⟨⟨hbegins, -⟩, hothers⟩ := hentered
    have hdue' : EntersAsDue run.request (r ++ [(.resume t, e.2)]) := by
      refine hdue.concat ?_
      rw [hcalls, hreached.callsEntered_eq (x := (.resume t, e.2)) rfl, callsDue,
        if_neg hbegins.ne_nil]
      rfl
    constructor
    · exact hasked fun _ => by simp [hruns]
    · rw [hlonger, List.forall_mem_cons]
      exact ⟨⟨hbegins.concat hasks, _, hdue'⟩, hothers⟩
    · intro run' hrun'
      obtain ⟨hsame, hwaits⟩ := hpending run' hrun'
      exact ⟨_, _, hlonger, hsame ▸ hdue', hreached.concat (x := (.resume t, e.2)) rfl hwaits⟩

theorem keepsRuns (as : List Step) : (start.run as).1.KeepsRuns (start.history as) := by
  refine record_induction ⟨rfl, by simp [runsOn], fun run h => by cases h⟩ ?_ as
  intro s h a _ hk
  exact (s.step_move a).callMove.keepsRuns hk

/-- All calls on a record are those of its runs. -/
theorem callsOn_history (as : List Step) :
    callsOn (start.history as) = (runsOn (start.history as)).reverse.flatMap callsOn := by
  have hsilent : ∀ x ∈ start.history as, x.1.asksEngine x.2.answer = false → x.2.calls = [] := by
    intro x hx hasks
    obtain ⟨before, after, h⟩ := List.append_of_mem hx
    obtain ⟨bs, a, rfl, rfl⟩ := history_eq_append_cons h
    exact ((start.run bs).1.step_move a).callMove.calls_eq_nil hasks
  rw [← callsOn_filter hsilent, ← (keepsRuns as).asked, ← List.flatMap_id, callsOn,
    List.flatMap_assoc]
  rfl

/-- **The engine is called in runs only:** by a trigger that starts one, or in a resumption while
one is pending. -/
theorem asked_of_calls_ne_nil {as : List Step} {before after : List (Step × Outcome)}
    {x : Step × Outcome} (h : start.history as = before ++ x :: after) (hcalls : x.2.calls ≠ []) :
    x.1.startsRun x.2.answer = true ∨ (∃ t, x.1 = .resume t) ∧ RunPending before := by
  obtain ⟨bs, a, rfl, rfl⟩ := history_eq_append_cons h
  have hm := ((start.run bs).1.step_move a).callMove
  generalize (start.run bs).1.step a = e at hm hcalls
  cases hm with
  | silent hnone => exact absurd hnone hcalls
  | started request hstarts => exact Or.inl hstarts
  | askedAgain hp => exact Or.inr ⟨⟨_, rfl⟩, (runPending_iff bs).mpr (Option.isSome_of_eq_some hp)⟩

/-- **A resumption asks the pending run,** and nothing if there is none. -/
theorem asksAgain_iff {as : List Step} {before after : List (Step × Outcome)}
    {x : Step × Outcome} (h : start.history as = before ++ x :: after) :
    x.1.asksAgain x.2.answer = true ↔ (∃ t, x.1 = .resume t) ∧ RunPending before := by
  obtain ⟨bs, a, rfl, rfl⟩ := history_eq_append_cons h
  rw [runPending_iff]
  cases a with
  | resume t =>
    cases hp : (start.run bs).1.pending with
    | none => simp [step, hp, Step.asksAgain]
    | some run =>
      have hasks := (start.run bs).1.asksAgain_settle t run.request
        (callsEntered run.stage t run.request) (.ofTurn run.stage t)
      rw [← askAgain_eq] at hasks
      simp [step, hp, hasks]
  | load | setPolicy | reset | analyze | drop => simp [Step.asksAgain]

/-! ## The main statement -/

/-- **How a record shows the engine to be called.** -/
structure CallsAsDue (h : List (Step × Outcome)) : Prop where
  /-- The preparation is entered as often as a run has been started. -/
  preparations : (callsOn h).count .prepare = runsStarted h
  /-- The analysis is entered as often as there are runs whose own preparation has answered well. -/
  analyses : (callsOn h).countP Call.isAnalysis = (runsOn h).countP isPrepared
  /-- The runs are made up of the entries that ask the engine, as they follow each other, and there
  is one for each trigger that was not refused. -/
  runs : (runsOn h).reverse.flatten = (h.filter fun x => x.1.asksEngine x.2.answer) ∧
    (runsOn h).length = runsStarted h ∧ ∀ r ∈ runsOn h, BeginsWithTrigger r
  /-- All calls are those of runs, run after run. -/
  calls : callsOn h = (runsOn h).reverse.flatMap callsOn
  /-- A run enters the preparation in its first entry, and the analysis in the one in which its
  preparation has answered well, if there is one; and these are all of its calls. -/
  in_order : ∀ r ∈ runsOn h, ∃ q, EntersAsDue q r ∧
    callsOn r = .prepare :: if isPrepared r then [.analyze q] else []
  /-- A run that is asked again enters no call that it has entered before. -/
  again : ∀ r ∈ runsOn h, ∀ before x after, r = before ++ x :: after →
    ∀ c ∈ x.2.calls, c ∉ callsOn before
  /-- A resumption asks the run that is pending, and nothing if there is none. -/
  resumed : ∀ before x after, h = before ++ x :: after →
    (x.1.asksAgain x.2.answer = true ↔ (∃ t, x.1 = .resume t) ∧ RunPending before)
  /-- Nothing else calls the engine: no refused trigger, no load, no reset, no new policy, no drop,
  and no resumption after a run has ended or was dropped. -/
  elsewhere : ∀ before x after, h = before ++ x :: after → x.2.calls ≠ [] →
    x.1.startsRun x.2.answer = true ∨ (∃ t, x.1 = .resume t) ∧ RunPending before

/-- **Calls follow the runs.**  Whatever is done with a session and whatever its engine does, every
run that is started enters the preparation once, and enters the analysis once if its own preparation
has answered well and not at all otherwise.  It enters them in this order, in the steps in which it
is asked, and never again after a call has stalled; and no other step calls the engine. -/
theorem calls_follow_runs (as : List Step) : CallsAsDue (start.history as) := by
  have hk := keepsRuns as
  have hentered : ∀ r ∈ runsOn (start.history as), r ≠ [] ∧ ∃ q, EntersAsDue q r := by
    intro r hr
    obtain ⟨hbegins, hdue⟩ := hk.entered r hr
    exact ⟨hbegins.ne_nil, hdue⟩
  have hreversed : ∀ r ∈ (runsOn (start.history as)).reverse, r ≠ [] ∧ ∃ q, EntersAsDue q r :=
    fun r hr => hentered r (List.mem_reverse.mp hr)
  obtain ⟨hprepare, hanalyze⟩ := count_callsOn_of_runs hreversed
  rw [← callsOn_history, List.length_reverse, length_runsOn] at hprepare
  rw [← callsOn_history, List.countP_reverse] at hanalyze
  refine ⟨hprepare, hanalyze, ⟨hk.asked, length_runsOn _, fun r hr => (hk.entered r hr).1⟩,
    callsOn_history as, fun r hr => ?_, fun r hr => ?_,
    fun before x after h => asksAgain_iff h, fun before x after h => asked_of_calls_ne_nil h⟩
  · obtain ⟨hne, q, hdue⟩ := hentered r hr
    exact ⟨q, hdue, hdue.callsOn_eq hne⟩
  · obtain ⟨-, q, hdue⟩ := hentered r hr
    rintro before x after rfl c hc
    exact hdue.notMem_callsOn hc

/-- Both calls stall and then the analysis fails; asking once more has no effect, and the run that
follows is not prepared. -/
example :
    let stall : Turn := ⟨.pending, .pending⟩
    let h := start.history [.load ⟨"m.st", "A", rfl⟩, .analyze stall,
      .resume ⟨.answered (.ok ()), .pending⟩, .resume stall,
      .resume ⟨.pending, .answered (.error (.threw "x"))⟩, .resume stall,
      .analyze ⟨.answered (.error (.threw "y")), .pending⟩]
    callsOn h = [.prepare, .analyze ⟨"A", "", "m.st"⟩, .prepare] ∧
      (runsOn h).map isPrepared = [false, true] := ⟨rfl, rfl⟩

end Session

end PlcAudit
