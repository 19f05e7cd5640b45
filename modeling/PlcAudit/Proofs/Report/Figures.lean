import Mathlib.Data.List.Induction
import Mathlib.Data.List.Nodup
import Mathlib.Data.List.Perm.Subperm
import PlcAudit.Report.Compliance

/-!
# The figures of a report

The compliance is made from the numbers of the violated rules, sorted and with the repetitions
struck out.  What matters about this list is that it ascends strictly and which numbers it has:
there is one such list for every set of numbers.  The tallies are counted in one pass, in which each
violation raises one of them where it stands; their rules turn out to be the same list.  So the
figures cannot depend on the order in which violations were found.

* `eraseReps_cons_cons`: striking out repetitions as a recursion.
* `mem_violatedRules`, `pairwise_violatedRules`, `violatedRules_congr`: the violated rules.
* `countOf_increment`, `mem_map_ruleNo_increment`, `pairwise_increment`: a step of the pass.
* `tallies_eq`, `frequency_eq`: what the pass counts, in closed form.
* `mem_frequency`: the tallies.
* `toNat_failedRuleCount`, `toNat_passedRuleCount`, `toNat_percentOf`: the figures as natural
  numbers, within which nothing overflows.
* `compliance_congr`, `frequency_eq_of_perm`: what the figures depend on.
* `failedRules_pos_iff`, `percent_lt_iff`, `frequency_ne_nil_iff`: each figure tells whether there
  are violations.
-/

namespace PlcAudit

/-! ## Repetitions struck out -/

section Repetitions

variable {α : Type} [BEq α]

theorem eraseReps_loop (a : α) (l acc : List α) :
    List.eraseRepsBy.loop (· == ·) a l acc =
      acc.reverse ++ List.eraseRepsBy.loop (· == ·) a l [] := by
  induction l generalizing a acc with
  | nil => simp [List.eraseRepsBy.loop]
  | cons b l ih =>
    rw [List.eraseRepsBy.loop, List.eraseRepsBy.loop]
    cases a == b with
    | true => exact ih a acc
    | false =>
      dsimp only
      rw [ih b (a :: acc), ih b [a]]
      simp

variable [LawfulBEq α] [DecidableEq α]

/-- **The recursion.**  An element is struck out when its successor is the same. -/
theorem eraseReps_cons_cons (a b : α) (l : List α) :
    (a :: b :: l).eraseReps =
      if a = b then (b :: l).eraseReps else a :: (b :: l).eraseReps := by
  simp only [List.eraseReps, List.eraseRepsBy]
  rw [List.eraseRepsBy.loop]
  by_cases h : a = b
  · subst h
    simp
  · rw [if_neg h, beq_eq_false_iff_ne.mpr h]
    exact eraseReps_loop b l [a]

theorem mem_eraseReps {a : α} {l : List α} : a ∈ l.eraseReps ↔ a ∈ l := by
  induction l with
  | nil => rfl
  | cons b l ih =>
    cases l with
    | nil => rfl
    | cons c l =>
      rw [eraseReps_cons_cons]
      by_cases h : b = c
      · rw [if_pos h, ih, h]
        simp
      · rw [if_neg h, List.mem_cons, List.mem_cons, ih]

end Repetitions

/-- Of numbers that ascend, those that are left ascend strictly. -/
theorem pairwise_eraseReps {l : List UInt32} (h : l.Pairwise (· ≤ ·)) :
    l.eraseReps.Pairwise (· < ·) := by
  induction l with
  | nil => exact List.Pairwise.nil
  | cons a l ih =>
    cases l with
    | nil => exact List.pairwise_singleton _ _
    | cons b l =>
      obtain ⟨ha, hl⟩ := List.pairwise_cons.mp h
      rw [eraseReps_cons_cons]
      by_cases hab : a = b
      · rw [if_pos hab]
        exact ih hl
      · rw [if_neg hab, List.pairwise_cons]
        refine ⟨fun c hc => ?_, ih hl⟩
        have hlt : a < b := UInt32.lt_of_le_of_ne (ha b List.mem_cons_self) hab
        rcases List.mem_cons.mp (mem_eraseReps.mp hc) with rfl | hc
        · exact hlt
        · exact UInt32.lt_of_lt_of_le hlt ((List.pairwise_cons.mp hl).1 c hc)

/-! ## Violated rules -/

theorem mem_violatedRules {n : UInt32} {fs : List Finding} :
    n ∈ violatedRules fs ↔ ∃ f ∈ fs, f.ruleNo = n := by
  rw [violatedRules, mem_eraseReps, List.mem_mergeSort, List.mem_map]

/-- The violated rules ascend, each of them once. -/
theorem pairwise_violatedRules (fs : List Finding) : (violatedRules fs).Pairwise (· < ·) := by
  have htrans : ∀ a b c : UInt32, decide (a ≤ b) = true → decide (b ≤ c) = true →
      decide (a ≤ c) = true := by
    simp only [decide_eq_true_eq]
    exact fun a b c => UInt32.le_trans
  have htotal : ∀ a b : UInt32, (decide (a ≤ b) || decide (b ≤ a)) = true := by
    simp only [Bool.or_eq_true, decide_eq_true_eq]
    exact UInt32.le_total
  exact pairwise_eraseReps ((List.pairwise_mergeSort htrans htotal _).imp of_decide_eq_true)

theorem nodup_violatedRules (fs : List Finding) : (violatedRules fs).Nodup :=
  (pairwise_violatedRules fs).imp fun h => UInt32.ne_of_lt h

/-- Numbers that ascend strictly are settled by which there are. -/
theorem eq_of_pairwise_lt {l m : List UInt32} (hl : l.Pairwise (· < ·)) (hm : m.Pairwise (· < ·))
    (h : ∀ n, n ∈ l ↔ n ∈ m) : l = m := by
  have hperm : l.Perm m :=
    (List.perm_ext_iff_of_nodup (hl.imp UInt32.ne_of_lt) (hm.imp UInt32.ne_of_lt)).mpr h
  refine hperm.eq_of_pairwise (fun a b _ _ hab hba => ?_) hl hm
  exact absurd (UInt32.lt_trans hab hba) (UInt32.lt_irrefl a)

/-- **The violated rules depend on nothing else** than which rules occur. -/
theorem violatedRules_congr {fs gs : List Finding}
    (h : ∀ n, (∃ f ∈ fs, f.ruleNo = n) ↔ ∃ g ∈ gs, g.ruleNo = n) :
    violatedRules fs = violatedRules gs := by
  refine eq_of_pairwise_lt (pairwise_violatedRules fs) (pairwise_violatedRules gs) fun n => ?_
  rw [mem_violatedRules, mem_violatedRules, h n]

theorem violatedRules_eq_of_perm {fs gs : List Finding} (h : fs.Perm gs) :
    violatedRules fs = violatedRules gs :=
  violatedRules_congr fun _ => ⟨fun ⟨f, hf, hn⟩ => ⟨f, h.mem_iff.mp hf, hn⟩,
    fun ⟨f, hf, hn⟩ => ⟨f, h.mem_iff.mpr hf, hn⟩⟩

/-- Every violation violates a rule. -/
theorem violatedRules_eq_nil_iff {fs : List Finding} : violatedRules fs = [] ↔ fs = [] := by
  simp only [List.eq_nil_iff_forall_not_mem, mem_violatedRules]
  exact ⟨fun h f hf => h f.ruleNo ⟨f, hf, rfl⟩, fun h n ⟨f, hf, _⟩ => h f hf⟩

/-! ## Counting

The tallies are counted in one pass, each violation raising one of them.  What a pass has counted so
far is told by two things: which rules have a tally, and how often each rule has been counted.  A
step changes both at one rule alone, wherever the tally of that rule stands. -/

/-- How often a rule is counted in a list of tallies. -/
def countOf (n : UInt32) : List Tally → Nat
  | [] => 0
  | t :: ts => (if t.ruleNo = n then t.count else 0) + countOf n ts

section Counting

variable {ts : List Tally} {n m : UInt32}

/-- One more violation is counted of its rule and of no other. -/
theorem countOf_increment :
    countOf n (increment m ts) = countOf n ts + if m = n then 1 else 0 := by
  induction ts with
  | nil => simp [increment, countOf]
  | cons t ts ih =>
    rw [increment]
    split
    · exact Nat.add_comm _ _
    · split
      · next h =>
        subst h
        rw [countOf, countOf, Nat.add_right_comm]
        split <;> rfl
      · rw [countOf, countOf, ih, Nat.add_assoc]

/-- The rule of the violation has a tally after it, and the other rules if they had one. -/
theorem mem_map_ruleNo_increment :
    n ∈ (increment m ts).map (·.ruleNo) ↔ n = m ∨ n ∈ ts.map (·.ruleNo) := by
  induction ts with
  | nil => simp [increment]
  | cons t ts ih =>
    rw [increment]
    split
    · simp
    · split
      · next h => simp [h]
      · rw [List.map_cons, List.mem_cons, ih, List.map_cons, List.mem_cons, or_left_comm]

/-- Tallies that ascend still do after one more violation. -/
theorem pairwise_increment (h : (ts.map (·.ruleNo)).Pairwise (· < ·)) :
    ((increment m ts).map (·.ruleNo)).Pairwise (· < ·) := by
  induction ts with
  | nil => exact List.pairwise_singleton _ _
  | cons t ts ih =>
    obtain ⟨ht, hts⟩ := List.pairwise_cons.mp h
    rw [increment]
    split
    · next hlt =>
      refine List.pairwise_cons.mpr ⟨fun n hn => ?_, h⟩
      rcases List.mem_cons.mp hn with rfl | hn
      · exact hlt
      · exact UInt32.lt_trans hlt (ht n hn)
    · next hlt =>
      split
      · exact h
      · next hne =>
        refine List.pairwise_cons.mpr ⟨fun n hn => ?_, ih hts⟩
        rcases mem_map_ruleNo_increment.mp hn with rfl | hn
        · exact UInt32.lt_of_le_of_ne (UInt32.not_lt.mp hlt) (Ne.symm hne)
        · exact ht n hn

/-- A rule without a tally is not counted. -/
theorem countOf_eq_zero (h : n ∉ ts.map (·.ruleNo)) : countOf n ts = 0 := by
  induction ts with
  | nil => rfl
  | cons t ts ih =>
    rw [countOf, if_neg (Ne.symm (List.ne_of_not_mem_cons h)),
      ih (List.not_mem_of_not_mem_cons h)]

/-- Of tallies that ascend, each says how often its rule is counted. -/
theorem countOf_of_mem (h : (ts.map (·.ruleNo)).Pairwise (· < ·)) {t : Tally} (ht : t ∈ ts) :
    countOf t.ruleNo ts = t.count := by
  induction ts with
  | nil => cases ht
  | cons u ts ih =>
    obtain ⟨hu, hts⟩ := List.pairwise_cons.mp h
    rw [countOf]
    rcases List.mem_cons.mp ht with rfl | ht
    · have hnot : t.ruleNo ∉ ts.map (·.ruleNo) := fun hmem =>
        UInt32.lt_irrefl _ (hu _ hmem)
      rw [if_pos rfl, countOf_eq_zero hnot]
      rfl
    · have hlt : u.ruleNo < t.ruleNo := hu _ (List.mem_map_of_mem ht)
      rw [if_neg (UInt32.ne_of_lt hlt), ih hts ht, Nat.zero_add]

end Counting

theorem tallies_concat (fs : List Finding) (f : Finding) :
    tallies (fs ++ [f]) = increment f.ruleNo (tallies fs) := List.foldl_concat _ _ _ _

/-- A pass counts every violation, of its rule. -/
theorem countOf_tallies (n : UInt32) (fs : List Finding) :
    countOf n (tallies fs) = (fs.map (·.ruleNo)).count n := by
  induction fs using List.reverseRecOn with
  | nil => rfl
  | append_singleton fs f ih =>
    rw [tallies_concat, countOf_increment, ih, List.map_append, List.count_append,
      List.map_singleton, List.count_singleton]
    simp

theorem mem_map_ruleNo_tallies {n : UInt32} {fs : List Finding} :
    n ∈ (tallies fs).map (·.ruleNo) ↔ ∃ f ∈ fs, f.ruleNo = n := by
  induction fs using List.reverseRecOn with
  | nil => simp [tallies]
  | append_singleton fs f ih =>
    rw [tallies_concat, mem_map_ruleNo_increment, ih]
    simp [or_and_right, exists_or, or_comm, eq_comm]

theorem pairwise_tallies (fs : List Finding) : ((tallies fs).map (·.ruleNo)).Pairwise (· < ·) := by
  induction fs using List.reverseRecOn with
  | nil => exact List.Pairwise.nil
  | append_singleton fs f ih =>
    rw [tallies_concat]
    exact pairwise_increment ih

/-- The rules that have a tally are the violated rules. -/
theorem map_ruleNo_tallies (fs : List Finding) : (tallies fs).map (·.ruleNo) = violatedRules fs :=
  eq_of_pairwise_lt (pairwise_tallies fs) (pairwise_violatedRules fs) fun _ =>
    mem_map_ruleNo_tallies.trans mem_violatedRules.symm

/-- The violations of one rule, counted. -/
def tallyOf (fs : List Finding) (ruleNo : UInt32) : Tally :=
  ⟨ruleNo, (fs.map (·.ruleNo)).count ruleNo⟩

/-- **What one pass counts** is for each violated rule the number of its violations. -/
theorem tallies_eq (fs : List Finding) : tallies fs = (violatedRules fs).map (tallyOf fs) := by
  have hself : ∀ t ∈ tallies fs, tallyOf fs t.ruleNo = t := by
    intro t ht
    rw [tallyOf, ← countOf_tallies, countOf_of_mem (pairwise_tallies fs) ht]
  rw [← map_ruleNo_tallies, List.map_map]
  exact ((List.map_congr_left hself).trans (List.map_id _)).symm

/-- The table in closed form. -/
theorem frequency_eq (fs : List Finding) : frequency fs =
    ((violatedRules fs).map (tallyOf fs)).mergeSort fun a b => b.count ≤ a.count := by
  rw [frequency, tallies_eq]

/-! ## Tallies -/

theorem count_tallyOf (fs : List Finding) (n : UInt32) :
    (tallyOf fs n).count = fs.countP fun f => f.ruleNo = n := by
  rw [tallyOf, List.count_eq_countP, List.countP_map]
  exact List.countP_congr fun f _ => by simp

/-- **There is a tally for each rule that occurs,** and it counts its violations. -/
theorem mem_frequency {t : Tally} {fs : List Finding} : t ∈ frequency fs ↔
    (∃ f ∈ fs, f.ruleNo = t.ruleNo) ∧ t.count = fs.countP fun f => f.ruleNo = t.ruleNo := by
  rw [frequency_eq, List.mem_mergeSort, List.mem_map, ← count_tallyOf]
  constructor
  · rintro ⟨n, hn, rfl⟩
    exact ⟨mem_violatedRules.mp hn, rfl⟩
  · rintro ⟨hrule, hcount⟩
    refine ⟨t.ruleNo, mem_violatedRules.mpr hrule, ?_⟩
    obtain ⟨n, c⟩ := t
    exact congrArg (Tally.mk n) hcount.symm

theorem tallyOf_mem_frequency {f : Finding} {fs : List Finding} (hf : f ∈ fs) :
    tallyOf fs f.ruleNo ∈ frequency fs :=
  mem_frequency.mpr ⟨⟨f, hf, rfl⟩, count_tallyOf fs f.ruleNo⟩

/-- The tallies are the same in whatever order the violations stand. -/
theorem frequency_eq_of_perm {fs gs : List Finding} (h : fs.Perm gs) :
    frequency fs = frequency gs := by
  have htally : tallyOf fs = tallyOf gs := by
    funext n
    rw [tallyOf, tallyOf, (h.map _).count_eq]
  rw [frequency_eq, frequency_eq, violatedRules_eq_of_perm h, htally]

/-! ## Compliance -/

theorem toNat_failedRuleCount (fs : List Finding) :
    (failedRuleCount fs).toNat = min (violatedRules fs).length (UInt32.size - 1) := by
  rw [failedRuleCount, UInt32.toNat_ofNat']
  exact Nat.mod_eq_of_lt (Nat.lt_of_le_of_lt (Nat.min_le_right _ _) (by decide))

/-- The rules that pass are what is left of the catalog, if anything is. -/
theorem toNat_passedRuleCount (failed : UInt32) :
    (passedRuleCount failed).toNat = catalogSize.toNat - failed.toNat := by
  unfold passedRuleCount
  by_cases h : failed ≤ catalogSize
  · rw [if_pos h, UInt32.toNat_sub_of_le _ _ h]
  · have hlt : catalogSize.toNat < failed.toNat := UInt32.lt_iff_toNat_lt.mp (UInt32.not_le.mp h)
    rw [if_neg h, Nat.sub_eq_zero_of_le (Nat.le_of_lt hlt)]
    rfl

theorem toNat_passedRuleCount_le (n : UInt32) :
    (passedRuleCount n).toNat ≤ catalogSize.toNat := by
  rw [toNat_passedRuleCount]
  exact Nat.sub_le _ _

/-- A share in percent as a natural number, if nothing overflows on the way. -/
theorem toNat_percentOf_of_fits {part total : UInt32} (htotal : total ≠ 0)
    (hfits : part.toNat * 100 + total.toNat / 2 < UInt32.size) :
    (percentOf part total).toNat = (part.toNat * 100 + total.toNat / 2) / total.toNat := by
  have hproduct : part.toNat * UInt32.toNat 100 % 2 ^ 32 = part.toNat * 100 :=
    Nat.mod_eq_of_lt (Nat.lt_of_le_of_lt (Nat.le_add_right _ _) hfits)
  rw [percentOf, if_neg htotal, UInt32.toNat_div, UInt32.toNat_add, UInt32.toNat_mul, hproduct,
    UInt32.toNat_div, show UInt32.toNat 2 = 2 from rfl, Nat.mod_eq_of_lt hfits]

/-- A share of the catalog in percent, a half rounded up.  It always fits. -/
theorem toNat_percentOf {part : UInt32} (h : part.toNat ≤ catalogSize.toNat) :
    (percentOf part catalogSize).toNat = (part.toNat * 100 + 10) / 20 := by
  have hpart : part.toNat ≤ 20 := h
  have hfits : part.toNat * 100 + 20 / 2 < UInt32.size := by
    rw [show UInt32.size = 4294967296 from rfl]
    omega
  exact toNat_percentOf_of_fits (by decide) hfits

theorem toNat_passedRules (fs : List Finding) : (compliance fs).passedRules.toNat =
    catalogSize.toNat - (compliance fs).failedRules.toNat := toNat_passedRuleCount _

theorem toNat_percent (fs : List Finding) : (compliance fs).percent.toNat =
    ((compliance fs).passedRules.toNat * 100 + 10) / 20 :=
  toNat_percentOf (toNat_passedRuleCount_le _)

/-- The compliance depends on nothing else than which rules occur. -/
theorem compliance_congr {fs gs : List Finding} (h : violatedRules fs = violatedRules gs) :
    compliance fs = compliance gs := by
  simp only [compliance, failedRuleCount, h]

/-! ## Figures that tell whether there are violations -/

section Violations

variable {fs : List Finding}

/-- Some rule fails when there is a violation. -/
theorem failedRules_pos_iff : 0 < (compliance fs).failedRules ↔ fs ≠ [] := by
  have hfailed := toNat_failedRuleCount fs
  rw [UInt32.lt_iff_toNat_lt, ne_eq, ← violatedRules_eq_nil_iff, ← List.length_eq_zero_iff]
  change 0 < (failedRuleCount fs).toNat ↔ _
  have hsize : UInt32.size - 1 = 4294967295 := rfl
  omega

/-- The percentage is below one hundred when there is a violation: a single rule takes five off. -/
theorem percent_lt_iff : (compliance fs).percent < 100 ↔ fs ≠ [] := by
  rw [← failedRules_pos_iff, UInt32.lt_iff_toNat_lt, UInt32.lt_iff_toNat_lt, toNat_percent,
    toNat_passedRules]
  have hcatalog : catalogSize.toNat = 20 := rfl
  have hzero : (0 : UInt32).toNat = 0 := rfl
  have hhundred : (100 : UInt32).toNat = 100 := rfl
  omega

/-- There is a tally when there is a violation. -/
theorem frequency_ne_nil_iff : frequency fs ≠ [] ↔ fs ≠ [] := by
  rw [not_iff_not, frequency_eq, ← List.length_eq_zero_iff, List.length_mergeSort, List.length_map,
    List.length_eq_zero_iff, violatedRules_eq_nil_iff]

end Violations

end PlcAudit
