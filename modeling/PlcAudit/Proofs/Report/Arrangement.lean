import PlcAudit.Proofs.Finding.Distinct
import PlcAudit.Proofs.Finding.Order
import PlcAudit.Report.Basic

/-!
# What a report does with the findings

Between the entries of an output and the groups of a report nothing gets lost: repeated findings
are struck out, the rest is split by status, and the violations are sorted.  The four stages are
proved apart and put together here as one statement about the findings and the groups.

* `Groups.foldl_push`, `Groups.ofFindings_eq`: the groups in closed form.
* `Groups.Arrange`: what it means that groups arrange a list of findings.
* `Groups.toList_ofFindings_perm`: splitting by status rearranges.
* `Groups.arrange_distinct`: the groups of the distinct findings arrange all of them.
* `Report.arranges_output`: the main statement.
-/

namespace PlcAudit

namespace Groups

/-! ## Splitting by status -/

/-- The findings of one status. -/
def withStatus (s : Status) (fs : List Finding) : List Finding := fs.filter (·.status = s)

/-- **What is pushed stands by status,** behind what was there. -/
theorem foldl_push (g : Groups) (fs : List Finding) : fs.foldl push g =
    { followed := g.followed ++ withStatus .ok fs
      violations := g.violations ++ withStatus .notFollowed fs
      errors := g.errors ++ withStatus .error fs } := by
  induction fs generalizing g with
  | nil => simp [withStatus]
  | cons f fs ih =>
    rw [List.foldl_cons, ih, push]
    cases h : f.status <;> simp [withStatus, h]

/-- The groups in closed form. -/
theorem ofFindings_eq (fs : List Finding) : ofFindings fs =
    { followed := withStatus .ok fs
      violations := Finding.sorted (withStatus .notFollowed fs)
      errors := withStatus .error fs } := by
  simp only [ofFindings, foldl_push, List.nil_append]

theorem mem_withStatus {s : Status} {f : Finding} {fs : List Finding} :
    f ∈ withStatus s fs ↔ f ∈ fs ∧ f.status = s := by
  simp [withStatus]

theorem count_withStatus (s : Status) (f : Finding) (fs : List Finding) :
    (withStatus s fs).count f = if f.status = s then fs.count f else 0 := by
  split
  · next h => exact List.count_filter (by simpa using h)
  · next h => exact List.count_eq_zero.mpr fun hf => h (mem_withStatus.mp hf).2

/-- **The groups of a list hold what the list holds,** each finding as often. -/
theorem toList_ofFindings_perm (fs : List Finding) : (ofFindings fs).toList.Perm fs := by
  rw [List.perm_iff_count]
  intro f
  simp only [toList, ofFindings_eq, List.count_append, (Finding.sorted_perm _).count_eq,
    count_withStatus]
  cases f.status <;> simp

/-- Each finding stands in the group of its status. -/
structure ByStatus (g : Groups) : Prop where
  followed : ∀ f ∈ g.followed, f.status = .ok
  violations : ∀ f ∈ g.violations, f.status = .notFollowed
  errors : ∀ f ∈ g.errors, f.status = .error

theorem byStatus_ofFindings (fs : List Finding) : (ofFindings fs).ByStatus := by
  rw [ofFindings_eq]
  exact
    { followed := fun _ hf => (mem_withStatus.mp hf).2
      violations := fun _ hf => (mem_withStatus.mp (Finding.mem_sorted.mp hf)).2
      errors := fun _ hf => (mem_withStatus.mp hf).2 }

/-- Of findings with one status, that status keeps all and every other one none. -/
theorem withStatus_of_forall {s : Status} {fs : List Finding} (h : ∀ f ∈ fs, f.status = s)
    (t : Status) : withStatus t fs = if t = s then fs else [] := by
  split
  · next hts => exact List.filter_eq_self.mpr fun f hf => by simp [h f hf, hts]
  · next hts =>
    refine List.filter_eq_nil_iff.mpr fun f hf => ?_
    rw [h f hf]
    simpa using Ne.symm hts

/-- A status finds its group again. -/
theorem withStatus_toList {g : Groups} (h : g.ByStatus) (s : Status) : withStatus s g.toList =
    match s with
    | .ok => g.followed
    | .notFollowed => g.violations
    | .error => g.errors := by
  have happend : withStatus s g.toList =
      withStatus s g.followed ++ withStatus s g.violations ++ withStatus s g.errors := by
    simp only [withStatus, toList, List.filter_append]
  rw [happend, withStatus_of_forall h.followed, withStatus_of_forall h.violations,
    withStatus_of_forall h.errors]
  cases s <;> simp

/-! ## Arrangements -/

/-- **What it means that groups arrange a list of findings.**  Each finding of the list stands in
them once, in the group of its status, and nothing else does.  The first and the last group are in
the order of first appearance.  Violations ascend by line, a missing line after every other, and
then by rule, and those with the same line and rule are in the order of first appearance.  No line
is zero. -/
structure Arrange (g : Groups) (fs : List Finding) : Prop where
  count_eq : ∀ f, g.toList.count f = if f ∈ fs then 1 else 0
  status_followed : ∀ f ∈ g.followed, f.status = .ok
  status_violations : ∀ f ∈ g.violations, f.status = .notFollowed
  status_errors : ∀ f ∈ g.errors, f.status = .error
  followed_order : Finding.InFirstOrder fs g.followed
  violations_order : g.violations.Pairwise fun f h =>
    f.key < h.key ∨ f.line = h.line ∧ f.ruleNo = h.ruleNo ∧ fs.idxOf f < fs.idxOf h
  errors_order : Finding.InFirstOrder fs g.errors
  line_ne_zero : ∀ f ∈ g.toList, f.line ≠ some 0

theorem Arrange.byStatus {g : Groups} {fs : List Finding} (h : g.Arrange fs) : g.ByStatus :=
  ⟨h.status_followed, h.status_violations, h.status_errors⟩

/-- Sorting violations keeps those that are equal in line and rule in the order of the list. -/
theorem violations_order_sorted {fs vs : List Finding} (h : Finding.InFirstOrder fs vs) :
    (Finding.sorted vs).Pairwise fun f g =>
      f.key < g.key ∨ f.line = g.line ∧ f.ruleNo = g.ruleNo ∧ fs.idxOf f < fs.idxOf g := by
  have hboth := (Finding.pairwise_sorted vs).and (Finding.pairwise_sorted_of_key_eq h)
  refine hboth.imp fun {f g} ⟨hle, htie⟩ => ?_
  rcases lt_or_eq_of_le hle with hlt | heq
  · exact Or.inl hlt
  · obtain ⟨hline, hrule⟩ := Finding.key_eq_iff.mp heq
    exact Or.inr ⟨hline, hrule, htie heq⟩

/-- **The groups of the distinct findings arrange all of them.** -/
theorem arrange_distinct {fs : List Finding} (hline : ∀ f ∈ fs, f.line ≠ some 0) :
    (ofFindings (Finding.distinct fs)).Arrange fs where
  count_eq f := by
    rw [(toList_ofFindings_perm _).count_eq]
    split
    · next hf =>
      exact List.count_eq_one_of_mem (Finding.nodup_distinct fs) (Finding.mem_distinct.mpr hf)
    · next hf => exact List.count_eq_zero.mpr fun h => hf (Finding.mem_distinct.mp h)
  status_followed := (byStatus_ofFindings _).followed
  status_violations := (byStatus_ofFindings _).violations
  status_errors := (byStatus_ofFindings _).errors
  followed_order := by
    rw [ofFindings_eq]
    exact (Finding.inFirstOrder_distinct fs).filter _
  violations_order := by
    rw [ofFindings_eq]
    exact violations_order_sorted ((Finding.inFirstOrder_distinct fs).filter _)
  errors_order := by
    rw [ofFindings_eq]
    exact (Finding.inFirstOrder_distinct fs).filter _
  line_ne_zero f hf :=
    hline f (Finding.mem_distinct.mp ((toList_ofFindings_perm _).mem_iff.mp hf))

end Groups

/-! ## Reports of an output -/

/-- No finding that comes from an entry names line zero. -/
theorem line_ne_zero_of_mem_findingsOf {es : List Entry} {f : Finding} (hf : f ∈ findingsOf es) :
    f.line ≠ some 0 := by
  obtain ⟨e, -, rfl⟩ := List.mem_map.mp hf
  intro h
  obtain ⟨n, -, hn⟩ := Option.bind_eq_some_iff.mp h
  exact Finding.lineOf_ne_some_zero n hn

namespace Report

theorem ofOutput_of_parseOutput {output : String} {es : List Entry}
    (h : parseOutput output = .ok es) :
    Report.ofOutput output = .ok (ofFindings (findingsOf es)) := by
  rw [ofOutput, h]
  rfl

theorem parseOutput_of_ofOutput {output : String} {r : Report}
    (h : Report.ofOutput output = .ok r) :
    ∃ es, parseOutput output = .ok es ∧ r = ofFindings (findingsOf es) := by
  cases hp : parseOutput output with
  | error f =>
    rw [ofOutput, hp] at h
    cases h
  | ok es =>
    rw [ofOutput_of_parseOutput hp] at h
    exact ⟨es, rfl, (Except.ok.inj h).symm⟩

/-- **A report arranges the findings of the output.**  There is a report exactly when the entries
can be read, and it holds the findings they stand for: each of them once, in the group of its
status and in the order of that group. -/
theorem arranges_output (output : String) :
    ((∃ r, Report.ofOutput output = .ok r) ↔ ∃ es, parseOutput output = .ok es) ∧
      ∀ r es, Report.ofOutput output = .ok r → parseOutput output = .ok es →
        r.groups.Arrange (findingsOf es) := by
  constructor
  · constructor
    · rintro ⟨r, h⟩
      obtain ⟨es, hes, -⟩ := parseOutput_of_ofOutput h
      exact ⟨es, hes⟩
    · rintro ⟨es, h⟩
      exact ⟨_, ofOutput_of_parseOutput h⟩
  · intro r es hr hes
    obtain ⟨es', hes', rfl⟩ := parseOutput_of_ofOutput hr
    obtain rfl : es' = es := Except.ok.inj (hes'.symm.trans hes)
    exact Groups.arrange_distinct fun f hf => line_ne_zero_of_mem_findingsOf hf

/-- A finding that is written in both shapes, and so comes from two entries that differ, is reported
once. -/
theorem arranges_output_of_both_shapes :
    ∃ r, Report.ofOutput
        ("[\x7b\"status\":\"ERROR\",\"rule_no\":2,\"rule_name\":\"n\",\"line\":5\x7d," ++
          "\x7b\"status\":\"ERROR\",\"rule_no\":2,\"rule_name\":\"n\"," ++
          "\"violation\":\x7b\"line\":5\x7d\x7d]") = .ok r ∧
      r.groups.toList.count
        { status := .error, ruleNo := 2, ruleName := "n", line := some 5 } = 1 := by
  have hparse : parseOutput
      ("[\x7b\"status\":\"ERROR\",\"rule_no\":2,\"rule_name\":\"n\",\"line\":5\x7d," ++
        "\x7b\"status\":\"ERROR\",\"rule_no\":2,\"rule_name\":\"n\"," ++
        "\"violation\":\x7b\"line\":5\x7d\x7d]") =
      .ok [{ status := .error, ruleNo := 2, ruleName := "n", line := some 5 },
        { status := .error, ruleNo := 2, ruleName := "n",
          detail := some { line := some (some 5) } }] := by
    decide +kernel
  have hreport := ofOutput_of_parseOutput hparse
  have harrange := (arranges_output _).2 _ _ hreport hparse
  exact ⟨_, hreport, harrange.count_eq _⟩

end Report

end PlcAudit
