import Mathlib.Data.List.Basic
import Mathlib.Data.List.Nodup
import PlcAudit.Finding.Distinct
import PlcAudit.Proofs.Finding.Signature

/-!
# The first of each finding

`Finding.distinct` filters a list through a growing set of signatures.  Since a signature stands for
one finding only, the set may be read as the findings themselves, and the filter as a recursion on
the list: the first finding is kept, and its repetitions are struck from the rest.

* `distinctFrom_eq_filter`: what was seen before can as well be struck out afterwards.
* `distinct_cons`: the recursion.
* `mem_distinct`, `nodup_distinct`: each finding of the list is kept, and once.
* `distinct_eq_self`: without repetitions there is nothing to strike out.
* `distinct_append`: of a list behind another one only what the first one lacks is kept.
* `InFirstOrder`, with `inFirstOrder_distinct`: what is kept stands in the order of first
  appearance.
* `firstPositions`, with `distinct_eq_map_firstPositions`: what is kept, by position.
* `keeps_first_positions`: the statement about any list.
-/

namespace PlcAudit.Finding

/-! ## The recursion -/

theorem distinct_eq_cons (f : Finding) (fs : List Finding) :
    distinct (f :: fs) = f :: distinctFrom [f.signature] fs := by
  simp [distinct, distinctFrom]

/-- What was seen before can as well be struck out afterwards. -/
theorem distinctFrom_eq_filter (seen : List String) (fs : List Finding) :
    distinctFrom seen fs = (distinct fs).filter fun f => f.signature ∉ seen := by
  induction fs generalizing seen with
  | nil => rfl
  | cons f fs ih =>
    rw [distinct_eq_cons, ih, distinctFrom, List.filter_cons, List.filter_filter]
    by_cases hf : f.signature ∈ seen
    · -- a repetition of `f` would have been seen as well
      rw [if_pos hf, if_neg (by simpa using hf), ih]
      refine List.filter_congr fun g _ => ?_
      by_cases hg : g.signature = f.signature
      · simp [hg, hf]
      · simp [hg]
    · rw [if_neg hf, if_pos (by simpa using hf), ih]
      congr 1
      refine List.filter_congr fun g _ => ?_
      simp only [List.mem_cons, List.mem_nil_iff, or_false, not_or, Bool.decide_and, Bool.and_comm]

/-- **The recursion.**  The first finding is kept, and struck from the rest. -/
theorem distinct_cons (f : Finding) (fs : List Finding) :
    distinct (f :: fs) = f :: (distinct fs).filter fun g => g ≠ f := by
  rw [distinct_eq_cons, distinctFrom_eq_filter]
  congr 1
  refine List.filter_congr fun g _ => ?_
  simp only [List.mem_singleton, signature_inj, ne_eq]

/-! ## What is kept -/

@[simp] theorem mem_distinct {f : Finding} {fs : List Finding} : f ∈ distinct fs ↔ f ∈ fs := by
  induction fs with
  | nil => rfl
  | cons g fs ih =>
    rw [distinct_cons, List.mem_cons, List.mem_cons, List.mem_filter, ih]
    by_cases hf : f = g
    · simp [hf]
    · simp [hf]

theorem nodup_distinct (fs : List Finding) : (distinct fs).Nodup := by
  induction fs with
  | nil => exact List.nodup_nil
  | cons f fs ih =>
    rw [distinct_cons, List.nodup_cons]
    exact ⟨by simp, ih.filter _⟩

/-- A list without repetitions is kept as it is. -/
theorem distinct_eq_self {fs : List Finding} (h : fs.Nodup) : distinct fs = fs := by
  induction fs with
  | nil => rfl
  | cons f fs ih =>
    obtain ⟨hf, hfs⟩ := List.nodup_cons.mp h
    rw [distinct_cons, ih hfs, List.filter_eq_self.mpr]
    intro g hg
    simpa using ne_of_mem_of_not_mem hg hf

/-- What is kept once is kept again. -/
theorem distinct_distinct (fs : List Finding) : distinct (distinct fs) = distinct fs :=
  distinct_eq_self (nodup_distinct fs)

/-- **Joined lists.**  Of the second list only what the first one lacks is kept. -/
theorem distinct_append (fs gs : List Finding) :
    distinct (fs ++ gs) = distinct fs ++ (distinct gs).filter fun g => g ∉ fs := by
  induction fs with
  | nil => simp
  | cons f fs ih =>
    have hstruck : ((distinct gs).filter fun g => g ∉ fs).filter (fun g => g ≠ f) =
        (distinct gs).filter fun g => g ∉ f :: fs := by
      rw [List.filter_filter]
      refine List.filter_congr fun g _ => ?_
      simp only [List.mem_cons, not_or, Bool.decide_and]
    rw [List.cons_append, distinct_cons, ih, List.filter_append, hstruck, distinct_cons,
      List.cons_append]

/-! ## The order of first appearance -/

/-- Whether the findings of `gs` stand in the order in which they first appear in `fs`. -/
def InFirstOrder (fs gs : List Finding) : Prop := gs.Pairwise fun f g => fs.idxOf f < fs.idxOf g

/-- What is kept of a list stands in the order of first appearance. -/
theorem inFirstOrder_distinct (fs : List Finding) : InFirstOrder fs (distinct fs) := by
  induction fs with
  | nil => exact List.Pairwise.nil
  | cons f fs ih =>
    have hshift : ∀ {g : Finding}, g ≠ f → (f :: fs).idxOf g = fs.idxOf g + 1 :=
      fun hg => List.idxOf_cons_ne _ hg.symm
    have hne : ∀ {g : Finding}, g ∈ (distinct fs).filter (fun g => g ≠ f) → g ≠ f :=
      fun hg => by simpa using (List.mem_filter.mp hg).2
    rw [InFirstOrder, distinct_cons, List.pairwise_cons]
    constructor
    · intro g hg
      rw [List.idxOf_cons_self, hshift (hne hg)]
      exact Nat.succ_pos _
    · refine (ih.filter _).imp_of_mem fun {g h} hg hh hlt => ?_
      rw [hshift (hne hg), hshift (hne hh)]
      exact Nat.succ_lt_succ hlt

/-- The findings that pass a test stay in their order. -/
theorem InFirstOrder.filter {fs gs : List Finding} (h : InFirstOrder fs gs)
    (p : Finding → Bool) : InFirstOrder fs (gs.filter p) := List.Pairwise.filter p h

/-! ## Positions -/

/-- The positions of a list, ascending, whose finding stands at no earlier position. -/
def firstPositions (fs : List Finding) : List (Fin fs.length) :=
  (List.finRange fs.length).filter fun i => ∀ j < i, fs[j] ≠ fs[i]

/-- The positions behind the first one that are kept: those that are kept in the tail and do not
hold the first finding again. -/
theorem firstPositions_cons (f : Finding) (fs : List Finding) :
    firstPositions (f :: fs) =
      (⟨0, Nat.succ_pos _⟩ : Fin (f :: fs).length) ::
        ((firstPositions fs).filter fun i => fs[i] ≠ f).map Fin.succ := by
  have hsucc : ∀ i : Fin fs.length,
      (∀ j < i.succ, (f :: fs)[j] ≠ (f :: fs)[i.succ]) ↔ fs[i] ≠ f ∧ ∀ j < i, fs[j] ≠ fs[i] := by
    intro i
    constructor
    · intro h
      exact ⟨(h ⟨0, Nat.succ_pos _⟩ (Fin.succ_pos i)).symm,
        fun j hj => h j.succ (Fin.succ_lt_succ_iff.mpr hj)⟩
    · rintro ⟨hf, h⟩ j hj
      cases j using Fin.cases with
      | zero => exact hf.symm
      | succ j => exact h j (Fin.succ_lt_succ_iff.mp hj)
  rw [firstPositions, show List.finRange (f :: fs).length = _ from List.finRange_succ,
    List.filter_cons_of_pos (by simp), List.filter_map, firstPositions,
    List.filter_filter]
  congr 2
  refine List.filter_congr fun i _ => ?_
  rw [← Bool.decide_and]
  exact decide_eq_decide.mpr (hsucc i)

/-- **What is kept, by position.** -/
theorem distinct_eq_map_firstPositions (fs : List Finding) :
    distinct fs = (firstPositions fs).map fun i => fs[i] := by
  induction fs with
  | nil => rfl
  | cons f fs ih =>
    rw [firstPositions_cons, distinct_cons, ih, List.map_cons, List.map_map, List.filter_map]
    rfl

/-- **What is kept of a list,** whatever findings it holds.  It is the findings at the first
positions, in the order of the list, and so each finding of the list once.  Findings are told apart
by their fields here; that signatures are compared does not matter.  Of what is kept nothing is
struck out again, and of a list behind another one only what the first one lacks is kept. -/
theorem keeps_first_positions (fs : List Finding) :
    distinct fs = ((firstPositions fs).map fun i => fs[i]) ∧
      (distinct fs).Sublist fs ∧ (distinct fs).Nodup ∧ (∀ f, f ∈ distinct fs ↔ f ∈ fs) ∧
      distinct (distinct fs) = distinct fs ∧
      ∀ gs, distinct (fs ++ gs) = distinct fs ++ (distinct gs).filter fun g => g ∉ fs :=
  ⟨distinct_eq_map_firstPositions fs, distinctFrom_sublist [] fs, nodup_distinct fs,
    fun _ => mem_distinct, distinct_distinct fs, distinct_append fs⟩

end PlcAudit.Finding
