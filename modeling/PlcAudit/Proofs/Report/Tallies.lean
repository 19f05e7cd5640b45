import Mathlib.Algebra.BigOperators.Group.List.Lemmas
import Mathlib.Algebra.Order.Round
import Mathlib.Data.Finset.Card
import Mathlib.Data.Rat.Floor
import Mathlib.Tactic.FieldSimp
import Mathlib.Tactic.Ring
import PlcAudit.Proofs.Report.Figures
import PlcAudit.Proofs.Sorting

/-!
# What the figures of a report count

The rules that fail and the table of tallies are made apart: the one from the set of the rules that
occur, the other by counting in one pass and sorting by count alone.  Here both are compared with
plain counting in the list of violations.  That equal counts are in the order of their rules is
nowhere said in the table: it comes from the order in which the pass leaves the tallies, which
sorting keeps.

* `violatedRules_perm_dedup`: the violated rules are the rules of the list without repetitions.
* `sum_count_frequency`: every violation is counted once.
* `pairwise_frequency`: the order of the table, ties included.
* `Counts`, with `counts_iff`: what it means that tallies count violations, and that one table does.
* `percentOf_eq_round`: a share in percent is rounded, a half up.
* `Compliance.Measures`, with `measures_compliance`: what the figures are.
* `figures_count_violations`: the statement for any list.
-/

namespace PlcAudit

variable {fs gs : List Finding}

/-! ## Rules and tallies -/

/-- The rules of the table are the violated rules, in another order. -/
theorem map_ruleNo_frequency_perm (fs : List Finding) :
    ((frequency fs).map (·.ruleNo)).Perm (violatedRules fs) := by
  have hsort : ((frequency fs).map (·.ruleNo)).Perm ((tallies fs).map (·.ruleNo)) :=
    (List.mergeSort_perm _ _).map _
  rwa [map_ruleNo_tallies] at hsort

/-- The violated rules are the rules of the list, each of them once. -/
theorem violatedRules_perm_dedup (fs : List Finding) :
    (violatedRules fs).Perm (fs.map (·.ruleNo)).dedup := by
  refine (List.perm_ext_iff_of_nodup (nodup_violatedRules fs) (List.nodup_dedup _)).mpr fun n => ?_
  rw [List.mem_dedup, mem_violatedRules, List.mem_map]

/-- There are as many tallies as there are rules in the list. -/
theorem length_frequency (fs : List Finding) :
    (frequency fs).length = (fs.map (·.ruleNo)).toFinset.card := by
  rw [List.card_toFinset, ← (violatedRules_perm_dedup fs).length_eq,
    ← (map_ruleNo_frequency_perm fs).length_eq, List.length_map]

/-- Every violation is counted once. -/
theorem sum_count_frequency (fs : List Finding) :
    ((frequency fs).map (·.count)).sum = fs.length := by
  have hsort : ((frequency fs).map (·.count)).Perm ((tallies fs).map (·.count)) :=
    (List.mergeSort_perm _ _).map _
  have hrules := (violatedRules_perm_dedup fs).map fun n => (fs.map (·.ruleNo)).count n
  rw [hsort.sum_eq, tallies_eq, List.map_map]
  refine hrules.sum_eq.trans ?_
  rw [List.sum_map_count_dedup_eq_length, List.length_map]

/-! ## The order of the table -/

/-- Whether tally `t` stands above tally `u`: it counts more, or as many of a rule with a lower
number. -/
def Tally.Above (t u : Tally) : Prop :=
  u.count < t.count ∨ t.count = u.count ∧ t.ruleNo < u.ruleNo

theorem Tally.Above.count_le {t u : Tally} (h : t.Above u) : u.count ≤ t.count := by
  rcases h with hlt | ⟨heq, -⟩
  · exact hlt.le
  · exact heq.ge

/-- **The greatest count comes first,** and equal counts are in the order of their rules: sorting
by count alone keeps the order of the tallies among them. -/
theorem pairwise_frequency (fs : List Finding) : (frequency fs).Pairwise Tally.Above := by
  have htrans : ∀ a b c : Tally, decide (b.count ≤ a.count) = true →
      decide (c.count ≤ b.count) = true → decide (c.count ≤ a.count) = true := by
    simp only [decide_eq_true_eq]
    exact fun a b c hba hcb => hcb.trans hba
  have htotal : ∀ a b : Tally,
      (decide (b.count ≤ a.count) || decide (a.count ≤ b.count)) = true := by
    simp only [Bool.or_eq_true, decide_eq_true_eq]
    exact fun a b => le_total b.count a.count
  have hrules : (tallies fs).Pairwise fun t u => t.ruleNo < u.ruleNo :=
    List.pairwise_map.mp (pairwise_tallies fs)
  have hcounts := List.pairwise_mergeSort htrans htotal (tallies fs)
  have hties := pairwise_mergeSort_of_tie htrans htotal hrules
  refine (hcounts.and hties).imp fun {t u} ⟨hle, htie⟩ => ?_
  rcases lt_or_eq_of_le (of_decide_eq_true hle) with hlt | heq
  · exact Or.inl hlt
  · exact Or.inr ⟨heq.symm, htie (decide_eq_true heq.ge)⟩

/-- Of two tallies one at most stands above the other. -/
theorem Tally.Above.asymm {t u : Tally} (h : t.Above u) (h' : u.Above t) : False := by
  rcases h with hlt | ⟨heq, hrule⟩
  · rcases h' with hlt' | ⟨heq', -⟩
    · omega
    · omega
  · rcases h' with hlt' | ⟨-, hrule'⟩
    · omega
    · exact UInt32.lt_irrefl _ (UInt32.lt_trans hrule hrule')

/-! ## The table -/

/-- **What it means that tallies count violations.**  There is one for each rule that occurs and no
other, and it says how often.  Together they count every violation, and they stand in the order of
the table. -/
structure Counts (ts : List Tally) (fs : List Finding) : Prop where
  once : ∀ n, (ts.map (·.ruleNo)).count n = if n ∈ fs.map (·.ruleNo) then 1 else 0
  count_eq : ∀ t ∈ ts, t.count = fs.countP fun f => f.ruleNo = t.ruleNo
  count_pos : ∀ t ∈ ts, 1 ≤ t.count
  sum_eq : (ts.map (·.count)).sum = fs.length
  ordered : ts.Pairwise Tally.Above

/-- The table counts. -/
theorem counts_frequency (fs : List Finding) : Counts (frequency fs) fs where
  once n := by
    have hrules := (map_ruleNo_frequency_perm fs).trans (violatedRules_perm_dedup fs)
    rw [hrules.count_eq, List.count_dedup]
  count_eq t ht := (mem_frequency.mp ht).2
  count_pos t ht := by
    obtain ⟨⟨f, hf, hrule⟩, hcount⟩ := mem_frequency.mp ht
    rw [hcount]
    exact List.countP_pos_iff.mpr ⟨f, hf, decide_eq_true hrule⟩
  sum_eq := sum_count_frequency fs
  ordered := pairwise_frequency fs

/-- Which tallies there are is settled by the rules and their counts. -/
theorem Counts.mem_iff {ts : List Tally} (h : Counts ts fs) {t : Tally} :
    t ∈ ts ↔ t ∈ frequency fs := by
  have hrule : ∀ n, (∃ u ∈ ts, u.ruleNo = n) ↔ ∃ f ∈ fs, f.ruleNo = n := by
    intro n
    rw [← List.mem_map, ← List.mem_map, ← List.count_pos_iff, h.once n]
    split
    · next hn => simp [hn]
    · next hn => simp [hn]
  rw [mem_frequency, ← hrule]
  constructor
  · intro ht
    exact ⟨⟨t, ht, rfl⟩, h.count_eq t ht⟩
  · rintro ⟨⟨u, hu, hun⟩, hcount⟩
    have hut : u = t := by
      obtain ⟨n, c⟩ := u
      obtain ⟨n', c'⟩ := t
      obtain rfl : n = n' := hun
      rw [Tally.mk.injEq]
      exact ⟨rfl, (h.count_eq _ hu).trans hcount.symm⟩
    rw [← hut]
    exact hu

/-- **One table counts the violations of a list:** the order leaves no freedom. -/
theorem counts_iff {ts : List Tally} : Counts ts fs ↔ ts = frequency fs := by
  constructor
  · intro h
    have hnodup : ∀ {us : List Tally}, us.Pairwise Tally.Above → us.Nodup := by
      intro us hus
      refine hus.imp fun {t u} htu => ?_
      rintro rfl
      exact htu.asymm htu
    have hperm : ts.Perm (frequency fs) := by
      rw [List.perm_ext_iff_of_nodup (hnodup h.ordered) (hnodup (pairwise_frequency fs))]
      exact fun t => h.mem_iff
    exact hperm.eq_of_pairwise (fun t u _ _ htu hut => (htu.asymm hut).elim) h.ordered
      (pairwise_frequency fs)
  · rintro rfl
    exact counts_frequency fs

/-! ## The figures -/

/-- **A share in percent** is rounded to the nearest whole number, a half up, if nothing overflows
on the way. -/
theorem percentOf_eq_round {part total : UInt32} (htotal : total ≠ 0)
    (hfits : part.toNat * 100 + total.toNat / 2 < UInt32.size) :
    ((percentOf part total).toNat : ℤ) = round ((part.toNat : ℚ) / total.toNat * 100) := by
  have hne : (total.toNat : ℚ) ≠ 0 :=
    Nat.cast_ne_zero.mpr fun h => htotal (UInt32.toNat_inj.mp h)
  -- the half that is added is rounded down itself, which changes no quotient
  have hhalf : (part.toNat * 100 + total.toNat / 2) / total.toNat =
      (part.toNat * 200 + total.toNat) / (2 * total.toNat) := by
    rw [← Nat.div_div_eq_div_mul]
    congr 1
    omega
  have hshare : (part.toNat : ℚ) / total.toNat * 100 + 1 / 2 =
      ((part.toNat * 200 + total.toNat : ℕ) : ℚ) / ((2 * total.toNat : ℕ) : ℚ) := by
    push_cast
    field_simp
    ring
  rw [round_eq, hshare, Rat.floor_natCast_div_natCast, toNat_percentOf_of_fits htotal hfits, hhalf,
    Int.natCast_ediv]

/-- **What it means that figures measure violations.**  A rule fails once, and the number of rules
that fail is kept below `2 ^ 32`; those that are left of the catalog pass.  The percentage is their
share, rounded, and on the way to it no number leaves the 32 bits.  It is full when there are no
violations, and zero when as many rules fail as the catalog has. -/
structure Compliance.Measures (c : Compliance) (fs : List Finding) : Prop where
  totalRules : c.totalRules.toNat = 20
  failedRules : c.failedRules.toNat = min (frequency fs).length (2 ^ 32 - 1)
  passedRules : (c.passedRules.toNat : ℤ) = max 0 (20 - c.failedRules.toNat)
  fits : c.passedRules.toNat * 100 + c.totalRules.toNat / 2 < 2 ^ 32
  percent : (c.percent.toNat : ℤ) = round ((c.passedRules.toNat : ℚ) / 20 * 100)
  percent_le : c.percent ≤ 100
  percent_full : c.percent = 100 ↔ fs = []
  percent_zero : c.percent = 0 ↔ 20 ≤ (fs.map (·.ruleNo)).toFinset.card

/-- The compliance measures. -/
theorem measures_compliance (fs : List Finding) : (compliance fs).Measures fs := by
  have hrules : (violatedRules fs).length = (fs.map (·.ruleNo)).toFinset.card := by
    rw [← length_frequency, ← (map_ruleNo_frequency_perm fs).length_eq, List.length_map]
  have hfailed : (compliance fs).failedRules.toNat =
      min (fs.map (·.ruleNo)).toFinset.card (2 ^ 32 - 1) := by
    rw [← hrules]
    exact toNat_failedRuleCount fs
  have hpassed : (compliance fs).passedRules.toNat = 20 - (compliance fs).failedRules.toNat :=
    toNat_passedRules fs
  have hpercent := toNat_percent fs
  have hfits : (compliance fs).passedRules.toNat * 100 + 20 / 2 < 2 ^ 32 := by omega
  have hempty : (fs.map (·.ruleNo)).toFinset.card = 0 ↔ fs = [] := by
    rw [← hrules, List.length_eq_zero_iff, violatedRules_eq_nil_iff]
  exact
    { totalRules := rfl
      failedRules := by rw [length_frequency, hfailed]
      passedRules := by omega
      fits := hfits
      percent := percentOf_eq_round (by decide) hfits
      percent_le := by
        rw [UInt32.le_iff_toNat_le, hpercent, show UInt32.toNat 100 = 100 from rfl]
        omega
      percent_full := by
        rw [← UInt32.toNat_inj, hpercent, ← hempty, show UInt32.toNat 100 = 100 from rfl]
        omega
      percent_zero := by
        rw [← UInt32.toNat_inj, hpercent, show UInt32.toNat 0 = 0 from rfl]
        omega }

/-- **What the figures count,** for every list of violations.  The table is the only one that counts
them; the compliance measures them; and neither depends on the order in which they were found. -/
theorem figures_count_violations (fs : List Finding) :
    (∀ ts, Counts ts fs ↔ ts = frequency fs) ∧ (compliance fs).Measures fs ∧
      ∀ gs, gs.Perm fs → frequency gs = frequency fs ∧ compliance gs = compliance fs :=
  ⟨fun _ => counts_iff, measures_compliance fs,
    fun _ h => ⟨frequency_eq_of_perm h, compliance_congr (violatedRules_eq_of_perm h)⟩⟩

/-- Three violations of two rules, the rule with the greater number more often, in two orders. -/
theorem figures_of_reordered_violations :
    [Finding.of .notFollowed 2 "b", .of .notFollowed 9 "a", .of .notFollowed 9 "a"].Perm
        [.of .notFollowed 9 "a", .of .notFollowed 2 "b", .of .notFollowed 9 "a"] ∧
      frequency [.of .notFollowed 2 "b", .of .notFollowed 9 "a", .of .notFollowed 9 "a"] =
        [⟨9, 2⟩, ⟨2, 1⟩] ∧
      frequency [.of .notFollowed 2 "b", .of .notFollowed 9 "a", .of .notFollowed 9 "a"] =
        frequency [.of .notFollowed 9 "a", .of .notFollowed 2 "b", .of .notFollowed 9 "a"] ∧
      compliance [.of .notFollowed 2 "b", .of .notFollowed 9 "a", .of .notFollowed 9 "a"] =
        compliance [.of .notFollowed 9 "a", .of .notFollowed 2 "b", .of .notFollowed 9 "a"] := by
  have hperm : [Finding.of .notFollowed 2 "b", .of .notFollowed 9 "a", .of .notFollowed 9 "a"].Perm
      [.of .notFollowed 9 "a", .of .notFollowed 2 "b", .of .notFollowed 9 "a"] := .swap _ _ _
  have htallies : tallies [.of .notFollowed 2 "b", .of .notFollowed 9 "a", .of .notFollowed 9 "a"] =
      [⟨2, 1⟩, ⟨9, 2⟩] := by decide
  have hfigures := (figures_count_violations _).2.2 _ hperm
  refine ⟨hperm, ?_, hfigures⟩
  rw [frequency, htallies]
  simp [List.mergeSort]

end PlcAudit
