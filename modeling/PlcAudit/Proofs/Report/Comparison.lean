import PlcAudit.Proofs.Report.Arrangement
import PlcAudit.Proofs.Report.Figures

/-!
# Reports of two outputs

Two outputs are compared by the findings that occur in them.  When those of the first occur in the
second, the first report is no worse in any figure.  When the same findings occur in both, the
reports agree up to the order of what is equal in line and rule: neither the order of an array, nor
repetitions in it, nor the shape of an entry or the spelling of its status can be seen in a figure.

The violations of a report are distinct, so a set of them that is included in another is a part of
it as a list, whatever the order.  This carries every count over.

* `Report.NoWorse`, `Report.Agrees`: the two ways in which reports compare.
* `failedRuleCount_le`, `passedRuleCount_le`, `percentOf_le`: each figure by itself.
* `withStatus_distinct_subperm`, `withStatus_distinct_perm`: the groups of two lists of findings.
* `map_place_sorted_eq_of_perm`: the order of lines and rules in a sorted list.
* `Report.compares_outputs`: the main statement.
-/

namespace PlcAudit

/-! ## Comparisons -/

namespace Report

/-- **The first report is no worse:** it does not fail more rules than the second, passes no fewer,
and counts no more violations of any rule.  A rule without a tally has no violations. -/
structure NoWorse (r₁ r₂ : Report) : Prop where
  failed_le : r₁.compliance.failedRules ≤ r₂.compliance.failedRules
  passed_ge : r₂.compliance.passedRules ≤ r₁.compliance.passedRules
  percent_ge : r₂.compliance.percent ≤ r₁.compliance.percent
  tally : ∀ t ∈ r₁.frequency, ∃ u ∈ r₂.frequency, u.ruleNo = t.ruleNo
  count_le : ∀ t ∈ r₁.frequency, ∀ u ∈ r₂.frequency, u.ruleNo = t.ruleNo → t.count ≤ u.count

/-- **The reports agree** in their figures and in the places and rules of their violations, and each
group holds the same findings in both, if in another order. -/
structure Agrees (r₁ r₂ : Report) : Prop where
  compliance : r₁.compliance = r₂.compliance
  frequency : r₁.frequency = r₂.frequency
  places : (r₁.groups.violations.map fun f => (f.line, f.ruleNo)) =
    r₂.groups.violations.map fun f => (f.line, f.ruleNo)
  followed : r₁.groups.followed.Perm r₂.groups.followed
  violations : r₁.groups.violations.Perm r₂.groups.violations
  errors : r₁.groups.errors.Perm r₂.groups.errors

end Report

/-! ## Figures -/

/-- A part of a list of violations violates no more rules. -/
theorem length_violatedRules_le {vs ws : List Finding} (h : vs ⊆ ws) :
    (violatedRules vs).length ≤ (violatedRules ws).length := by
  refine ((nodup_violatedRules vs).subperm fun n hn => ?_).length_le
  obtain ⟨f, hf, hrule⟩ := mem_violatedRules.mp hn
  exact mem_violatedRules.mpr ⟨f, h hf, hrule⟩

theorem failedRuleCount_le {vs ws : List Finding} (h : vs ⊆ ws) :
    failedRuleCount vs ≤ failedRuleCount ws := by
  rw [UInt32.le_iff_toNat_le, toNat_failedRuleCount, toNat_failedRuleCount]
  have hlength := length_violatedRules_le h
  omega

/-- The more rules fail, the fewer pass. -/
theorem passedRuleCount_le {m n : UInt32} (h : m ≤ n) : passedRuleCount n ≤ passedRuleCount m := by
  rw [UInt32.le_iff_toNat_le] at h ⊢
  rw [toNat_passedRuleCount, toNat_passedRuleCount]
  omega

/-- The more rules pass, the greater is their share. -/
theorem percentOf_le {m n : UInt32} (h : m ≤ n) (hn : n.toNat ≤ catalogSize.toNat) :
    percentOf m catalogSize ≤ percentOf n catalogSize := by
  rw [UInt32.le_iff_toNat_le] at h ⊢
  rw [toNat_percentOf (Nat.le_trans h hn), toNat_percentOf hn]
  omega

/-! ## Groups -/

section Groups

variable {fs gs : List Finding}

theorem mem_withStatus_distinct {s : Status} {f : Finding} :
    f ∈ Groups.withStatus s (Finding.distinct fs) ↔ f ∈ fs ∧ f.status = s := by
  rw [Groups.mem_withStatus, Finding.mem_distinct]

theorem nodup_withStatus_distinct (s : Status) (fs : List Finding) :
    (Groups.withStatus s (Finding.distinct fs)).Nodup := (Finding.nodup_distinct fs).filter _

/-- The distinct findings of a status are a part of those of any list that holds them all. -/
theorem withStatus_distinct_subperm (h : fs ⊆ gs) (s : Status) :
    (Groups.withStatus s (Finding.distinct fs)).Subperm
      (Groups.withStatus s (Finding.distinct gs)) := by
  refine (nodup_withStatus_distinct s fs).subperm fun f hf => ?_
  obtain ⟨hmem, hstatus⟩ := mem_withStatus_distinct.mp hf
  exact mem_withStatus_distinct.mpr ⟨h hmem, hstatus⟩

theorem withStatus_distinct_perm (h : ∀ f, f ∈ fs ↔ f ∈ gs) (s : Status) :
    (Groups.withStatus s (Finding.distinct fs)).Perm
      (Groups.withStatus s (Finding.distinct gs)) := by
  refine (List.perm_ext_iff_of_nodup (nodup_withStatus_distinct s fs)
    (nodup_withStatus_distinct s gs)).mpr fun f => ?_
  rw [mem_withStatus_distinct, mem_withStatus_distinct, h f]

/-- **Sorted lists of the same findings** have their lines and rules in one order. -/
theorem map_place_sorted_eq_of_perm {vs ws : List Finding} (h : vs.Perm ws) :
    ((Finding.sorted vs).map fun f => (f.line, f.ruleNo)) =
      (Finding.sorted ws).map fun f => (f.line, f.ruleNo) := by
  have hperm : ((Finding.sorted vs).map Finding.key).Perm ((Finding.sorted ws).map Finding.key) :=
    (((Finding.sorted_perm vs).trans h).trans (Finding.sorted_perm ws).symm).map _
  have hascending : ∀ us, ((Finding.sorted us).map Finding.key).Pairwise (· ≤ ·) :=
    fun us => List.pairwise_map.mpr (Finding.pairwise_sorted us)
  have hkeys := hperm.eq_of_pairwise (fun _ _ _ _ => le_antisymm) (hascending vs) (hascending ws)
  rw [← List.forall₂_eq_eq_eq, List.forall₂_map_left_iff, List.forall₂_map_right_iff] at hkeys ⊢
  refine hkeys.imp fun f g hkey => ?_
  obtain ⟨hline, hrule⟩ := Finding.key_eq_iff.mp hkey
  rw [hline, hrule]

end Groups

/-! ## Reports -/

namespace Report

variable {fs gs : List Finding}

theorem groups_ofFindings (fs : List Finding) : (ofFindings fs).groups =
    { followed := Groups.withStatus .ok (Finding.distinct fs)
      violations := Finding.sorted (Groups.withStatus .notFollowed (Finding.distinct fs))
      errors := Groups.withStatus .error (Finding.distinct fs) } :=
  Groups.ofFindings_eq (Finding.distinct fs)

/-- The violations of a report are those among the distinct findings, in another order. -/
theorem violations_perm (fs : List Finding) : (ofFindings fs).groups.violations.Perm
    (Groups.withStatus .notFollowed (Finding.distinct fs)) := by
  rw [groups_ofFindings]
  exact Finding.sorted_perm _

/-- **Fewer findings, no worse report.** -/
theorem noWorse_of_subset (h : fs ⊆ gs) : (ofFindings fs).NoWorse (ofFindings gs) := by
  have hsubperm : (ofFindings fs).groups.violations.Subperm (ofFindings gs).groups.violations := by
    refine (violations_perm fs).subperm.trans ?_
    exact (withStatus_distinct_subperm h _).trans (violations_perm gs).symm.subperm
  have hfailed := failedRuleCount_le hsubperm.subset
  have hpassed := passedRuleCount_le hfailed
  refine ⟨hfailed, hpassed, percentOf_le hpassed (toNat_passedRuleCount_le _), ?_, ?_⟩
  · intro t ht
    obtain ⟨⟨f, hf, hrule⟩, -⟩ := mem_frequency.mp ht
    exact ⟨_, tallyOf_mem_frequency (hsubperm.subset hf), hrule⟩
  · intro t ht u hu hrule
    rw [(mem_frequency.mp ht).2, (mem_frequency.mp hu).2, hrule]
    exact hsubperm.countP_le _

/-- **The same findings, the same figures.** -/
theorem agrees_of_forall_mem_iff (h : ∀ f, f ∈ fs ↔ f ∈ gs) :
    (ofFindings fs).Agrees (ofFindings gs) := by
  have hviolations : (ofFindings fs).groups.violations.Perm (ofFindings gs).groups.violations := by
    refine (violations_perm fs).trans ?_
    exact (withStatus_distinct_perm h _).trans (violations_perm gs).symm
  have hrules := violatedRules_eq_of_perm hviolations
  exact
    { compliance := compliance_congr hrules
      frequency := frequency_eq_of_perm hviolations
      places := by
        rw [groups_ofFindings, groups_ofFindings]
        exact map_place_sorted_eq_of_perm (withStatus_distinct_perm h _)
      followed := by
        rw [groups_ofFindings, groups_ofFindings]
        exact withStatus_distinct_perm h _
      violations := hviolations
      errors := by
        rw [groups_ofFindings, groups_ofFindings]
        exact withStatus_distinct_perm h _ }

/-- **How the reports of two outputs compare.**  Both outputs have been read as entries.  If every
finding of the first occurs in the second, its report is no worse; if the same findings occur in
both, the reports agree. -/
theorem compares_outputs {output₁ output₂ : String} {r₁ r₂ : Report}
    (h₁ : Report.ofOutput output₁ = .ok r₁) (h₂ : Report.ofOutput output₂ = .ok r₂) :
    ∃ es₁ es₂, parseOutput output₁ = .ok es₁ ∧ parseOutput output₂ = .ok es₂ ∧
      ((∀ f ∈ findingsOf es₁, f ∈ findingsOf es₂) → r₁.NoWorse r₂) ∧
      ((∀ f, f ∈ findingsOf es₁ ↔ f ∈ findingsOf es₂) → r₁.Agrees r₂) := by
  obtain ⟨es₁, hes₁, rfl⟩ := parseOutput_of_ofOutput h₁
  obtain ⟨es₂, hes₂, rfl⟩ := parseOutput_of_ofOutput h₂
  exact ⟨es₁, es₂, hes₁, hes₂, fun h => noWorse_of_subset fun f hf => h f hf,
    agrees_of_forall_mem_iff⟩

/-- The same two findings in another order and shape, one of them twice, and with the older spelling
of a status. -/
theorem compares_outputs_of_both_shapes :
    ∃ r₁ r₂, Report.ofOutput
        ("[\x7b\"status\":\"NOT_FOLLOWED\",\"rule_no\":2,\"rule_name\":\"b\",\"line\":5\x7d," ++
          "\x7b\"status\":\"OK\",\"rule_no\":1,\"rule_name\":\"a\"\x7d]") = .ok r₁ ∧
      Report.ofOutput
        ("[\x7b\"status\":\"OK\",\"rule_no\":1,\"rule_name\":\"a\"\x7d," ++
          "\x7b\"status\":\"NOT FOLLOWED\",\"rule_no\":2,\"rule_name\":\"b\"," ++
          "\"violation\":\x7b\"line\":5\x7d\x7d," ++
          "\x7b\"status\":\"OK\",\"rule_no\":1,\"rule_name\":\"a\"\x7d]") = .ok r₂ ∧
      r₁.NoWorse r₂ ∧ r₁.Agrees r₂ := by
  have hparse₁ : parseOutput
      ("[\x7b\"status\":\"NOT_FOLLOWED\",\"rule_no\":2,\"rule_name\":\"b\",\"line\":5\x7d," ++
        "\x7b\"status\":\"OK\",\"rule_no\":1,\"rule_name\":\"a\"\x7d]") =
      .ok [{ status := .notFollowed, ruleNo := 2, ruleName := "b", line := some 5 },
        { status := .ok, ruleNo := 1, ruleName := "a" }] := by
    decide +kernel
  have hparse₂ : parseOutput
      ("[\x7b\"status\":\"OK\",\"rule_no\":1,\"rule_name\":\"a\"\x7d," ++
        "\x7b\"status\":\"NOT FOLLOWED\",\"rule_no\":2,\"rule_name\":\"b\"," ++
        "\"violation\":\x7b\"line\":5\x7d\x7d," ++
        "\x7b\"status\":\"OK\",\"rule_no\":1,\"rule_name\":\"a\"\x7d]") =
      .ok [{ status := .ok, ruleNo := 1, ruleName := "a" },
        { status := .notFollowed, ruleNo := 2, ruleName := "b",
          detail := some { line := some (some 5) } },
        { status := .ok, ruleNo := 1, ruleName := "a" }] := by
    decide +kernel
  have hreport₁ := ofOutput_of_parseOutput hparse₁
  have hreport₂ := ofOutput_of_parseOutput hparse₂
  refine ⟨_, _, hreport₁, hreport₂, ?_⟩
  obtain ⟨es₁, es₂, hes₁, hes₂, hnoWorse, hagrees⟩ := compares_outputs hreport₁ hreport₂
  obtain rfl := Except.ok.inj (hparse₁.symm.trans hes₁)
  obtain rfl := Except.ok.inj (hparse₂.symm.trans hes₂)
  refine ⟨hnoWorse (by decide), hagrees fun f => ⟨?_, ?_⟩⟩
  · revert f
    decide
  · revert f
    decide

end Report

end PlcAudit
