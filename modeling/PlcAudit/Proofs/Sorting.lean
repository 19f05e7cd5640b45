import Mathlib.Data.List.Basic
import Mathlib.Order.Basic

/-!
# Stable sorting

A sort is stable when elements that compare equal keep the order in which they came.  Violations
rely on it for those at one line and rule, and the table of tallies for rules that are violated
equally often.  Stability is used in two forms: a list of elements that all tie is not touched, and
a relation that holds along the list holds along each tie of the sorted one.  Together with the
order it leaves no freedom, so two stable sortings of a list are the same.

* `filter_mergeSort`: what ties stays in its order.
* `pairwise_mergeSort_of_tie`: what holds along a list holds along the ties.
* `eq_of_pairwise_of_filter_eq`: a stable sorting is unique.
-/

namespace PlcAudit

/-! ## Ties -/

section Ties

variable {α : Type} {le : α → α → Bool}

/-- **What ties stays in its order.**  Of elements any two of which may stand in either order,
sorting moves none past another. -/
theorem filter_mergeSort (htrans : ∀ a b c, le a b = true → le b c = true → le a c = true)
    (htotal : ∀ a b, (le a b || le b a) = true) {p : α → Bool}
    (hp : ∀ a b, p a = true → p b = true → le a b = true) (l : List α) :
    (l.mergeSort le).filter p = l.filter p := by
  -- the elements that pass are in order already, and sorting keeps what is in order as it stands
  have hsub : (l.filter p).Sublist (l.mergeSort le) := by
    refine List.sublist_mergeSort htrans htotal ?_ List.filter_sublist
    refine List.pairwise_of_forall_mem_list fun a ha b hb => ?_
    exact hp a b (List.mem_filter.mp ha).2 (List.mem_filter.mp hb).2
  have hfilter := hsub.filter p
  rw [List.filter_filter] at hfilter
  simp only [Bool.and_self] at hfilter
  exact (hfilter.eq_of_length ((List.mergeSort_perm l le).filter p).length_eq.symm).symm

/-- What holds along a list holds, after sorting, along the elements that tie. -/
theorem pairwise_mergeSort_of_tie
    (htrans : ∀ a b c, le a b = true → le b c = true → le a c = true)
    (htotal : ∀ a b, (le a b || le b a) = true) {R : α → α → Prop} {l : List α}
    (h : l.Pairwise R) : (l.mergeSort le).Pairwise fun a b => le b a = true → R a b := by
  have hsorted := List.pairwise_mergeSort htrans htotal l
  rw [List.pairwise_iff_forall_sublist] at hsorted ⊢
  intro a b hab hba
  -- the two of them tie, and with them everything that ties with the second
  have hle : le a b = true := hsorted hab
  have hrefl : le b b = true := by simpa using htotal b b
  have hties := filter_mergeSort htrans htotal (p := fun x => le x b && le b x)
    (fun x y hx hy => htrans x b y (Bool.and_eq_true_iff.mp hx).1 (Bool.and_eq_true_iff.mp hy).2) l
  have hsub := hab.filter fun x => le x b && le b x
  rw [hties] at hsub
  simp only [List.filter_cons, List.filter_nil, hle, hba, hrefl, Bool.and_self, if_true] at hsub
  exact List.pairwise_iff_forall_sublist.mp (h.filter _) hsub

end Ties

/-! ## Uniqueness -/

/-- **A stable sorting is unique.**  Two lists that ascend by a key are equal when for each key they
have the same elements in the same order. -/
theorem eq_of_pairwise_of_filter_eq {α κ : Type} [PartialOrder κ] [DecidableEq κ] {key : α → κ} :
    ∀ {l m : List α}, l.Pairwise (fun a b => key a ≤ key b) →
      m.Pairwise (fun a b => key a ≤ key b) →
      (∀ a, (l.filter fun x => key x = key a) = m.filter fun x => key x = key a) → l = m
  | [], [], _, _, _ => rfl
  | [], b :: m, _, _, h => by simpa using h b
  | a :: l, [], _, _, h => by simpa using h a
  | a :: l, b :: m, hl, hm, h => by
    obtain ⟨hal, hl'⟩ := List.pairwise_cons.mp hl
    obtain ⟨hbm, hm'⟩ := List.pairwise_cons.mp hm
    -- each head occurs in the other list, so neither key is above the other
    have hmem : ∀ x, x ∈ a :: l ↔ x ∈ b :: m := by
      intro x
      have hx := congrArg (x ∈ ·) (h x)
      simpa using hx
    have hab : key a ≤ key b := by
      rcases List.mem_cons.mp ((hmem b).mpr List.mem_cons_self) with rfl | hb
      · exact le_rfl
      · exact hal b hb
    have hba : key b ≤ key a := by
      rcases List.mem_cons.mp ((hmem a).mp List.mem_cons_self) with rfl | ha
      · exact le_rfl
      · exact hbm a ha
    have hkey : key a = key b := le_antisymm hab hba
    have hcons := h a
    rw [List.filter_cons_of_pos (by simp), List.filter_cons_of_pos (by simp [hkey])] at hcons
    obtain ⟨rfl, htail⟩ := List.cons.inj hcons
    congr 1
    refine eq_of_pairwise_of_filter_eq hl' hm' fun x => ?_
    by_cases hx : key x = key a
    · rw [hx]
      exact htail
    · have hx' := h x
      rwa [List.filter_cons_of_neg (by simpa using Ne.symm hx),
        List.filter_cons_of_neg (by simpa using Ne.symm hx)] at hx'

end PlcAudit
