import PlcAudit.Proofs.Report.Arrangement
import PlcAudit.Proofs.Report.Document

/-!
# Reports are fixed points

The findings of a report, written as a list, are an output of an engine in their own right, and the
report of that output is the one they came from.  Every stage between the two texts has to keep what
is in its own image already: the reader gives back what was written, nothing is struck out of
findings that are distinct, and violations that ascend are sorted.

The groups may be written in any order.  Each of them has one status, so splitting by status finds
the groups again wherever they stand.

* `flatten_eq_of_perm`: lists of which one at most has elements, joined in any order.
* `withStatus_flatten`, `Groups.ofFindings_flatten`: the groups are found again.
* `Report.ofFindings_flatten`: a report is the report of its own findings.
* `Report.survives_writing`: the two statements about texts.
-/

namespace PlcAudit

open Json (Value)

/-! ## Groups in any order -/

/-- Lists of which one at most has elements give the same list in any order. -/
theorem flatten_eq_of_perm {α : Type} {ls ms : List (List α)} (h : ls.Perm ms)
    (hms : (ms.filter fun l => !l.isEmpty).length ≤ 1) : ls.flatten = ms.flatten := by
  rw [← List.flatten_filter_not_isEmpty (L := ls), ← List.flatten_filter_not_isEmpty (L := ms)]
  have hfilter := h.filter fun l => !l.isEmpty
  congr 1
  cases hne : ms.filter fun l => !l.isEmpty with
  | nil =>
    rw [hne] at hfilter
    exact List.perm_nil.mp hfilter
  | cons l tail =>
    rw [hne] at hfilter hms
    obtain rfl : tail = [] := List.eq_nil_of_length_eq_zero (by simpa using hms)
    exact List.perm_singleton.mp hfilter

namespace Groups

variable {g : Groups} {fs : List Finding}

theorem flatten_perm_toList {order : List (List Finding)}
    (horder : order.Perm [g.followed, g.violations, g.errors]) : order.flatten.Perm g.toList := by
  simpa [toList] using horder.flatten

/-- A status finds its group wherever it stands. -/
theorem withStatus_flatten (h : g.Arrange fs) {order : List (List Finding)}
    (horder : order.Perm [g.followed, g.violations, g.errors]) (s : Status) :
    withStatus s order.flatten = withStatus s g.toList := by
  have hmap := horder.map (withStatus s)
  rw [withStatus, List.filter_flatten]
  refine (flatten_eq_of_perm hmap ?_).trans ?_
  · simp only [List.map_cons, List.map_nil, withStatus_of_forall h.status_followed,
      withStatus_of_forall h.status_violations, withStatus_of_forall h.status_errors]
    cases s <;> simp [List.filter_cons] <;> split <;> simp
  · simp [toList, withStatus]

/-- **The groups are found again,** in whatever order they are written. -/
theorem ofFindings_flatten (h : g.Arrange fs) {order : List (List Finding)}
    (horder : order.Perm [g.followed, g.violations, g.errors]) :
    ofFindings order.flatten = g := by
  have hsorted : Finding.sorted g.violations = g.violations := by
    refine Finding.sorted_eq_self (h.violations_order.imp fun {f g} hfg => ?_)
    rcases hfg with hlt | ⟨hline, hrule, -⟩
    · exact le_of_lt hlt
    · exact le_of_eq (Finding.key_eq_iff.mpr ⟨hline, hrule⟩)
  simp only [ofFindings_eq, withStatus_flatten h horder, withStatus_toList h.byStatus, hsorted]

/-- The findings of arranged groups are distinct. -/
theorem Arrange.nodup_toList (h : g.Arrange fs) : g.toList.Nodup := by
  refine List.nodup_iff_count_le_one.mpr fun f => ?_
  rw [h.count_eq f]
  split <;> decide

end Groups

/-! ## Reports -/

namespace Report

/-- **A report is the report of its own findings,** group after group in any order. -/
theorem ofFindings_flatten {fs : List Finding} (hline : ∀ f ∈ fs, f.line ≠ some 0)
    {order : List (List Finding)} (horder : order.Perm [(ofFindings fs).groups.followed,
      (ofFindings fs).groups.violations, (ofFindings fs).groups.errors]) :
    ofFindings order.flatten = ofFindings fs := by
  have harrange : (ofFindings fs).groups.Arrange fs := Groups.arrange_distinct hline
  have hnodup : order.flatten.Nodup :=
    (Groups.flatten_perm_toList horder).nodup_iff.mpr harrange.nodup_toList
  rw [ofFindings, Finding.distinct_eq_self hnodup, Groups.ofFindings_flatten harrange horder]
  rfl

/-- **What is reported survives being written.**  Findings without line zero, written as a list in
either layout, are read back as they were.  The findings of a report therefore give the same report
once more, with its figures and tallies, in whatever order its groups are written. -/
theorem survives_writing :
    (∀ fs : List Finding, (∀ f ∈ fs, f.line ≠ some 0) → ∀ layout ∈ layouts,
      (parseOutput (layout (Finding.listValue fs))).map findingsOf = .ok fs) ∧
    ∀ output r, Report.ofOutput output = .ok r →
      ∀ order : List (List Finding),
        order.Perm [r.groups.followed, r.groups.violations, r.groups.errors] →
        ∀ layout ∈ layouts, Report.ofOutput (layout (Finding.listValue order.flatten)) = .ok r := by
  constructor
  · intro fs hline layout hlayout
    rw [parseOutput_layout hlayout fs]
    exact congrArg Except.ok (findingsOf_map_ofFinding hline)
  · intro output r hr order horder layout hlayout
    obtain ⟨es, -, rfl⟩ := parseOutput_of_ofOutput hr
    have hline : ∀ f ∈ findingsOf es, f.line ≠ some 0 :=
      fun f hf => line_ne_zero_of_mem_findingsOf hf
    have hflatten : ∀ f ∈ order.flatten, f.line ≠ some 0 := fun f hf =>
      (Groups.arrange_distinct hline).line_ne_zero f
        ((Groups.flatten_perm_toList horder).mem_iff.mp hf)
    rw [ofOutput_of_parseOutput (parseOutput_layout hlayout order.flatten),
      findingsOf_map_ofFinding hflatten, ofFindings_flatten hline horder]

/-- A report with a finding in each group, written with the last group first, and texts with quotes,
line feeds and characters of several bytes. -/
theorem survives_writing_of_three_groups :
    (parseOutput (Json.indented (Finding.listValue
      [{ status := .ok, ruleNo := 7, ruleName := "\"é|\n", reason := some "" }]))).map findingsOf =
        .ok [{ status := .ok, ruleNo := 7, ruleName := "\"é|\n", reason := some "" }] ∧
    ∃ r, Report.ofOutput
        ("[\x7b\"status\":\"OK\",\"rule_no\":1,\"rule_name\":\"a\"\x7d," ++
          "\x7b\"status\":\"NOT FOLLOWED\",\"rule_no\":2,\"rule_name\":\"b\",\"line\":0\x7d," ++
          "\x7b\"status\":\"ERROR\",\"rule_no\":3,\"rule_name\":\"c\"\x7d]") = .ok r ∧
      r.groups.size = 3 ∧
      Report.ofOutput (Json.compact (Finding.listValue
        [r.groups.errors, r.groups.violations, r.groups.followed].flatten)) = .ok r := by
  constructor
  · exact survives_writing.1 _ (by decide) _ (by simp [layouts])
  · have hparse : parseOutput
        ("[\x7b\"status\":\"OK\",\"rule_no\":1,\"rule_name\":\"a\"\x7d," ++
          "\x7b\"status\":\"NOT FOLLOWED\",\"rule_no\":2,\"rule_name\":\"b\",\"line\":0\x7d," ++
          "\x7b\"status\":\"ERROR\",\"rule_no\":3,\"rule_name\":\"c\"\x7d]") =
        .ok [{ status := .ok, ruleNo := 1, ruleName := "a" },
          { status := .notFollowed, ruleNo := 2, ruleName := "b", line := some 0 },
          { status := .error, ruleNo := 3, ruleName := "c" }] := by
      decide +kernel
    have hreport := ofOutput_of_parseOutput hparse
    refine ⟨_, hreport, ?_, ?_⟩
    · rw [← Groups.length_toList]
      exact (Groups.toList_ofFindings_perm _).length_eq
    · exact survives_writing.2 _ _ hreport _ (List.reverse_perm _) _ (by simp [layouts])

end Report

end PlcAudit
