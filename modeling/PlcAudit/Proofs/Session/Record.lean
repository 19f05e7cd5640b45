import Mathlib.Data.List.Induction
import PlcAudit.Proofs.Session.Phases

/-!
# Reading the record of a session

What a session holds at a moment is the outcome of all that was done with it.  The statements about
whole histories are therefore made about the record: what was asked for, what was answered, and
which of two entries came later.  Most of them have one form, that the value in force is the newest
one since something cleared it, and `newest?` is that form.

* `newest?`: the newest value on a record since it was cleared, with `newest?_concat` for one more
  entry and `newest?_append_cons` for what stands before a clearing entry.
* `history_append`, `history_eq_append`: records of longer runs, and records cut in two.
* `record_induction`: what every step keeps of a session and its record holds of all of them.
* `Step.restarts`: the entries with which a session begins anew.
* `loadedSource?`, `policySet?`: the input that a record speaks of, and `Session.holdsInput`: it is
  the input that the session holds.
-/

namespace PlcAudit

/-! ## The newest entry -/

/-- The newest value that `reads` finds on a record, no further back than the newest entry that
`clears` it. -/
def newest? (clears : α → Bool) (reads : α → Option β) (h : List α) : Option β :=
  (h.reverse.takeWhile fun x => !clears x).findSome? reads

section Newest

variable {clears : α → Bool} {reads : α → Option β}

@[simp] theorem newest?_nil : newest? clears reads [] = none := rfl

/-- One more entry clears the value, replaces it, or leaves it. -/
theorem newest?_concat (h : List α) (x : α) :
    newest? clears reads (h ++ [x]) =
      if clears x then none else (reads x).or (newest? clears reads h) := by
  unfold newest?
  rw [List.reverse_concat, List.takeWhile_cons]
  cases clears x with
  | true => rfl
  | false =>
    rw [Bool.not_false, if_pos rfl, List.findSome?_cons, if_neg Bool.false_ne_true]
    cases reads x <;> rfl

/-- Nothing that stands before a clearing entry counts. -/
theorem newest?_append_cons {x : α} (hx : clears x = true) (before after : List α) :
    newest? clears reads (before ++ x :: after) = newest? clears reads after := by
  induction after using List.reverseRecOn with
  | nil => rw [newest?_concat, if_pos hx, newest?_nil]
  | append_singleton after y ih =>
    rw [← List.cons_append, ← List.append_assoc, newest?_concat, newest?_concat, ih]

/-- The newest value was read off some entry. -/
theorem exists_of_newest?_eq_some {h : List α} {b : β} (hb : newest? clears reads h = some b) :
    ∃ x ∈ h, reads x = some b := by
  obtain ⟨x, hx, hread⟩ := List.exists_of_findSome?_eq_some hb
  exact ⟨x, List.mem_reverse.mp ((List.takeWhile_prefix _).subset hx), hread⟩

end Newest

/-! ## Records of sessions -/

namespace Session

/-- The record of a longer run goes on where the shorter one stops. -/
theorem history_append (s : Session) (as bs : List Step) :
    s.history (as ++ bs) = s.history as ++ (s.run as).1.history bs := by
  induction as generalizing s with
  | nil => rfl
  | cons a as ih => rw [List.cons_append, history_cons, ih, history_cons, List.cons_append, run_cons]

theorem history_concat (s : Session) (as : List Step) (a : Step) :
    s.history (as ++ [a]) = s.history as ++ [(a, ((s.run as).1.step a).2)] :=
  s.history_append as [a]

theorem run_concat (s : Session) (as : List Step) (a : Step) :
    (s.run (as ++ [a])).1 = ((s.run as).1.step a).1 := by
  rw [run_append]
  rfl

/-- The steps on a record are those that were taken. -/
theorem map_fst_history (s : Session) (as : List Step) : (s.history as).map Prod.fst = as := by
  induction as generalizing s with
  | nil => rfl
  | cons a as ih => rw [history_cons, List.map_cons, ih]

/-- Wherever a record is cut, its first part is the record of the first steps. -/
theorem history_eq_append {s : Session} {as : List Step} {h₁ h₂ : List (Step × Outcome)}
    (h : s.history as = h₁ ++ h₂) :
    ∃ bs cs, as = bs ++ cs ∧ h₁ = s.history bs ∧ h₂ = (s.run bs).1.history cs := by
  induction h₁ generalizing s as with
  | nil => exact ⟨[], as, rfl, rfl, h.symm⟩
  | cons x h₁ ih =>
    cases as with
    | nil => cases h
    | cons a as =>
      rw [history_cons, List.cons_append, List.cons.injEq] at h
      obtain ⟨rfl, hrest⟩ := h
      obtain ⟨bs, cs, rfl, rfl, rfl⟩ := ih hrest
      exact ⟨a :: bs, cs, rfl, rfl, rfl⟩

/-- An entry of a record is one step taken where the steps before it have led. -/
theorem history_eq_append_cons {s : Session} {as : List Step} {h₁ h₂ : List (Step × Outcome)}
    {x : Step × Outcome} (h : s.history as = h₁ ++ x :: h₂) :
    ∃ bs a, h₁ = s.history bs ∧ x = (a, ((s.run bs).1.step a).2) := by
  obtain ⟨bs, cs, -, hbs, hcs⟩ := history_eq_append h
  cases cs with
  | nil => cases hcs
  | cons a cs =>
    rw [history_cons, List.cons.injEq] at hcs
    exact ⟨bs, a, hbs, hcs.1⟩

/-- **What every step keeps holds of every session and its record.** -/
theorem record_induction {P : Session → List (Step × Outcome) → Prop} (hstart : P start [])
    (hstep : ∀ s h a, s.WellFormed → P s h → P (s.step a).1 (h ++ [(a, (s.step a).2)]))
    (as : List Step) : P (start.run as).1 (start.history as) := by
  induction as using List.reverseRecOn with
  | nil => exact hstart
  | append_singleton as a ih =>
    rw [run_concat, history_concat]
    exact hstep _ _ a (wellFormed_start.run as) ih

end Session

/-! ## The input on record -/

/-- Whether a step has cleared the input: a reset does, unless it is refused. -/
def Step.resets : Step → Answer → Bool
  | .reset, .done => true
  | _, _ => false

/-- Whether a step has replaced the input: a load or a reset does, unless it is refused. -/
def Step.restarts : Step → Answer → Bool
  | .load _, .done => true
  | .reset, .done => true
  | _, _ => false

/-- The source that a step has brought: that of a load, unless it is refused. -/
def Step.loaded? : Step → Answer → Option Source
  | .load f, .done => some f
  | _, _ => none

/-- The policy that a step has set, which may be that there is none. -/
def Step.policy? : Step → Option (Option String)
  | .setPolicy p => some p
  | _ => none

/-- The last source that was loaded after the last reset, refusals apart. -/
def loadedSource? : List (Step × Outcome) → Option Source :=
  newest? (fun x => x.1.resets x.2.answer) fun x => x.1.loaded? x.2.answer

/-- The last policy that was set after the last reset. -/
def policySet? : List (Step × Outcome) → Option (Option String) :=
  newest? (fun x => x.1.resets x.2.answer) fun x => x.1.policy?

namespace Session

/-- The asking of a run leaves the input alone. -/
theorem input_settle (s : Session) (request : Request) (calls : List Call) (v : Advance) :
    (s.settle request calls v).1.source = s.source ∧
      (s.settle request calls v).1.policy = s.policy := by
  rcases v with _ | (_ | _) | _ | _ <;> exact ⟨rfl, rfl⟩

/-- What a session holds as its input is the input on its record: the source that was loaded last,
and the policy that was set last, as far as it is one. -/
structure HoldsInput (s : Session) (h : List (Step × Outcome)) : Prop where
  source : s.source = loadedSource? h
  policy : s.policy = (policySet? h).bind effectivePolicy

/-- An entry that says nothing of the input changes nothing about it. -/
theorem HoldsInput.concat {s s' : Session} {h : List (Step × Outcome)} (hi : s.HoldsInput h)
    {x : Step × Outcome} (hs : s'.source = s.source) (hp : s'.policy = s.policy)
    (hreset : x.1.resets x.2.answer = false) (hload : x.1.loaded? x.2.answer = none)
    (hset : x.1.policy? = none) : s'.HoldsInput (h ++ [x]) where
  source := by
    rw [loadedSource?, newest?_concat, hreset, hload, hs, hi.source]
    rfl
  policy := by
    rw [policySet?, newest?_concat, hreset, hset, hp, hi.policy]
    rfl

/-- **Every step keeps the input that is on record.** -/
theorem Move.holdsInput {s : Session} {h : List (Step × Outcome)} {a : Step}
    {r : Session × Outcome} (hm : s.Move a r) (hi : s.HoldsInput h) :
    r.1.HoldsInput (h ++ [(a, r.2)]) := by
  cases hm with
  | refused hr =>
    cases a with
    | load | reset | analyze => exact hi.concat rfl rfl rfl rfl rfl
    | setPolicy | resume | drop => cases hr
  | loaded hl =>
    constructor
    · rw [loadedSource?, newest?_concat]
      rfl
    · rw [policySet?, newest?_concat]
      exact hi.policy
  | reset hl =>
    constructor
    · rw [loadedSource?, newest?_concat]
      rfl
    · rw [policySet?, newest?_concat]
      rfl
  | policySet =>
    constructor
    · rw [loadedSource?, newest?_concat]
      exact hi.source
    · rw [policySet?, newest?_concat]
      rfl
  | started hq hl =>
    rw [startRun_eq]
    have hkept := input_settle s.atLoading
    exact hi.concat (hkept ..).1 (hkept ..).2 rfl rfl rfl
  | resumed hp =>
    rw [askAgain_eq]
    have hkept := input_settle s
    exact hi.concat (hkept ..).1 (hkept ..).2 rfl rfl rfl
  | dropped hp => exact hi.concat rfl rfl rfl rfl rfl
  | idle ha hp => rcases ha with rfl | ⟨t, rfl⟩ <;> exact hi.concat rfl rfl rfl rfl rfl

/-- **A session holds the input that is on its record.** -/
theorem holdsInput (as : List Step) : (start.run as).1.HoldsInput (start.history as) :=
  record_induction ⟨rfl, rfl⟩ (fun s _ a _ hi => (s.step_move a).holdsInput hi) as

end Session

end PlcAudit
