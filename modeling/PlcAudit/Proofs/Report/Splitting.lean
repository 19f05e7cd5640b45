import PlcAudit.Proofs.Report.Arrangement

/-!
# Splitting any list of findings

The groups of a report come from findings that are distinct and name no line zero.  Sorting and
splitting do not rely on either: they are defined for every list, with repetitions in it and with
lines of any number.  Here they are described for all lists by what comes out alone, and each
description has one solution.

For the groups it is enough to say that each holds findings of its status, the first and the last
in the order of the list, and that together they are a rearrangement of it.  A group can then
neither lose a finding nor take one from another group: what it lacks no other group may have.

* `Splits`: what it means that groups split a list.
* `eq_withStatus_of_sublist`: a part of the list with the right findings is the part of a status.
* `splits_iff`: there is one way to split a list.
* `splits_in_order`: the statement for sorting and splitting together.
-/

namespace PlcAudit.Groups

variable {g : Groups} {fs gs : List Finding}

/-- **What it means that groups split a list of findings.**  Together they hold what the list holds,
each finding in the group of its status.  The first and the last group are in the order of the list,
and the second sorts a part of it. -/
structure Splits (g : Groups) (fs : List Finding) : Prop where
  perm : g.toList.Perm fs
  byStatus : g.ByStatus
  followed_sublist : g.followed.Sublist fs
  violations_sorts : ∃ vs, vs.Sublist fs ∧ Finding.Sorts g.violations vs
  errors_sublist : g.errors.Sublist fs

/-- A part of the list that has the findings of a status, in whatever order, has them in the order
of the list. -/
theorem eq_withStatus_of_sublist {s : Status} (hsub : gs.Sublist fs)
    (hperm : gs.Perm (withStatus s fs)) : gs = withStatus s fs := by
  have hstatus : ∀ f ∈ gs, f.status = s := fun f hf => (mem_withStatus.mp (hperm.mem_iff.mp hf)).2
  have hself : withStatus s gs = gs := (withStatus_of_forall hstatus s).trans (if_pos rfl)
  have hpart : gs.Sublist (withStatus s fs) := by
    rw [← hself]
    exact hsub.filter _
  exact hpart.eq_of_length hperm.length_eq

/-- The groups of a list split it. -/
theorem splits_ofFindings (fs : List Finding) : (ofFindings fs).Splits fs where
  perm := toList_ofFindings_perm fs
  byStatus := byStatus_ofFindings fs
  followed_sublist := by
    rw [ofFindings_eq]
    exact List.filter_sublist
  violations_sorts := by
    rw [ofFindings_eq]
    exact ⟨_, List.filter_sublist, Finding.sorts_sorted _⟩
  errors_sublist := by
    rw [ofFindings_eq]
    exact List.filter_sublist

/-- **There is one way to split a list.** -/
theorem splits_iff : g.Splits fs ↔ g = ofFindings fs := by
  constructor
  · intro h
    have hgroup : ∀ s, (withStatus s g.toList).Perm (withStatus s fs) := fun s => h.perm.filter _
    simp only [withStatus_toList h.byStatus] at hgroup
    have hfollowed : g.followed = withStatus .ok fs :=
      eq_withStatus_of_sublist h.followed_sublist (hgroup .ok)
    have herrors : g.errors = withStatus .error fs :=
      eq_withStatus_of_sublist h.errors_sublist (hgroup .error)
    -- what the violations sort has them all, and so it is the part of their status
    obtain ⟨vs, hvs, hsorts⟩ := h.violations_sorts
    have hviolations : vs = withStatus .notFollowed fs :=
      eq_withStatus_of_sublist hvs (hsorts.perm.symm.trans (hgroup .notFollowed))
    rw [ofFindings_eq, ← hfollowed, ← herrors, ← hviolations, ← Finding.sorts_iff.mp hsorts]
  · rintro rfl
    exact splits_ofFindings fs

/-- **Sorting and splitting, for every list.**  Lines of zero, missing lines and repetitions are
allowed.  A sorted list is the only one that sorts, and sorting it again changes nothing.  The
groups of a list are the only ones that split it: the findings that are followed and the errors as
they stand in it, and the violations sorted.  No finding is lost or added. -/
theorem splits_in_order (fs : List Finding) :
    (∀ gs, Finding.Sorts gs fs ↔ gs = Finding.sorted fs) ∧
      Finding.sorted (Finding.sorted fs) = Finding.sorted fs ∧
      (∀ g : Groups, g.Splits fs ↔ g = ofFindings fs) ∧
      ((ofFindings fs).followed = fs.filter fun f => f.status = .ok) ∧
      ((ofFindings fs).violations = Finding.sorted (fs.filter fun f => f.status = .notFollowed)) ∧
      ((ofFindings fs).errors = fs.filter fun f => f.status = .error) ∧
      (ofFindings fs).size = fs.length ∧ (ofFindings fs).toList.Perm fs := by
  have hperm := toList_ofFindings_perm fs
  have hsize : (ofFindings fs).size = fs.length := by
    rw [← length_toList]
    exact hperm.length_eq
  exact ⟨fun _ => Finding.sorts_iff, Finding.sorted_eq_self (Finding.pairwise_sorted fs),
    fun _ => splits_iff, congrArg followed (ofFindings_eq fs), congrArg violations (ofFindings_eq fs),
    congrArg errors (ofFindings_eq fs), hsize, hperm⟩

end PlcAudit.Groups
