import Mathlib.Data.Prod.Lex
import Mathlib.Order.WithBot
import PlcAudit.Finding.Order
import PlcAudit.Proofs.Sorting

/-!
# Sorting by line and rule

The comparison of violations goes through three keys, of which the first only says whether there is
a line.  Here they are two: a missing line is put above every line, so that "absent lines last" is
no case of its own, and place and rule are compared one after the other.

* `place`, `key`: the keys of a finding.
* `compareLine_eq_lt_iff`, `compareLine_eq_eq_iff`: the first two of the three compare places.
* `precedes_iff`: the comparison is the order of place and rule.
* `sorted_perm`, `pairwise_sorted`: a sorted list is a rearrangement in ascending order.
* `sorted_eq_self`: a list that ascends stays as it is.
* `pairwise_sorted_of_key_eq`: what holds along the list holds along each key after sorting.
* `Sorts`, with `sorts_iff`: what it means to sort a list, and that there is one way to do it.
-/

namespace PlcAudit.Finding

/-! ## Keys -/

/-- Where a finding stands in the source; without a line, below its end. -/
def place (f : Finding) : WithTop Nat := f.line.elim ⊤ fun n => WithTop.some n.toNat

/-- Place and rule, the place first. -/
def key (f : Finding) : WithTop Nat ×ₗ Nat := toLex (f.place, f.ruleNo.toNat)

theorem place_eq_iff {f g : Finding} : f.place = g.place ↔ f.line = g.line := by
  unfold place
  cases f.line <;> cases g.line <;> simp [UInt32.toNat_inj]

/-- The key holds line and rule and nothing else. -/
theorem key_eq_iff {f g : Finding} : f.key = g.key ↔ f.line = g.line ∧ f.ruleNo = g.ruleNo := by
  simp only [key, EmbeddingLike.apply_eq_iff_eq, Prod.mk.injEq, place_eq_iff, UInt32.toNat_inj]

/-- A missing line is above every line. -/
theorem compareLine_eq_lt_iff {f g : Finding} :
    compareLine f.line g.line = .lt ↔ f.place < g.place := by
  unfold place
  cases f.line with
  | none => exact iff_of_false (by cases g.line <;> nofun) not_top_lt
  | some m =>
    cases g.line with
    | none => exact iff_of_true rfl (WithTop.coe_lt_top _)
    | some n =>
      have hcompare : compareLine (some m) (some n) = compare m n := rfl
      rw [hcompare, Std.compare_eq_lt, UInt32.lt_iff_toNat_lt]
      exact WithTop.coe_lt_coe.symm

theorem compareLine_eq_eq_iff {f g : Finding} :
    compareLine f.line g.line = .eq ↔ f.place = g.place := by
  rw [place_eq_iff, compareLine, Ordering.then_eq_eq, Std.compare_eq_iff_eq, Std.compare_eq_iff_eq]
  exact ⟨fun h => h.2, fun h => ⟨congrArg Option.isNone h, h⟩⟩

/-- **The comparison is the order of the keys.** -/
theorem precedes_iff {f g : Finding} : precedes f g = true ↔ f.key ≤ g.key := by
  rw [precedes, Ordering.isLE_then_iff_or, compareLine_eq_lt_iff, compareLine_eq_eq_iff, key, key,
    Prod.Lex.toLex_le_toLex, Std.isLE_compare, UInt32.le_iff_toNat_le]

theorem precedes_trans (f g h : Finding) (hfg : precedes f g = true) (hgh : precedes g h = true) :
    precedes f h = true := by
  rw [precedes_iff] at *
  exact le_trans hfg hgh

theorem precedes_total (f g : Finding) : (precedes f g || precedes g f) = true := by
  rw [Bool.or_eq_true, precedes_iff, precedes_iff]
  exact le_total f.key g.key

/-! ## Sorted lists -/

theorem sorted_perm (fs : List Finding) : (sorted fs).Perm fs := List.mergeSort_perm fs _

@[simp] theorem mem_sorted {f : Finding} {fs : List Finding} : f ∈ sorted fs ↔ f ∈ fs :=
  (sorted_perm fs).mem_iff

/-- A sorted list ascends. -/
theorem pairwise_sorted (fs : List Finding) : (sorted fs).Pairwise fun f g => f.key ≤ g.key :=
  (List.pairwise_mergeSort precedes_trans precedes_total fs).imp precedes_iff.mp

/-- What ascends is sorted already. -/
theorem sorted_eq_self {fs : List Finding} (h : fs.Pairwise fun f g => f.key ≤ g.key) :
    sorted fs = fs := List.mergeSort_of_pairwise (h.imp precedes_iff.mpr)

/-- What holds along a list holds, after sorting, along the findings of each key. -/
theorem pairwise_sorted_of_key_eq {R : Finding → Finding → Prop} {fs : List Finding}
    (h : fs.Pairwise R) : (sorted fs).Pairwise fun f g => f.key = g.key → R f g := by
  refine (pairwise_mergeSort_of_tie precedes_trans precedes_total h).imp fun {f g} hfg hkey => ?_
  exact hfg (precedes_iff.mpr hkey.ge)

/-! ## What sorting is -/

/-- **What it means that one list sorts another.**  It holds the same findings; they ascend by line,
a missing line after every other, and then by rule; and those with the same line and rule stand as
they came. -/
structure Sorts (gs fs : List Finding) : Prop where
  perm : gs.Perm fs
  ascends : gs.Pairwise fun f g => f.key ≤ g.key
  keeps : ∀ line ruleNo, (gs.filter fun f => f.line = line ∧ f.ruleNo = ruleNo) =
    fs.filter fun f => f.line = line ∧ f.ruleNo = ruleNo

/-- A sorted list sorts. -/
theorem sorts_sorted (fs : List Finding) : Sorts (sorted fs) fs where
  perm := sorted_perm fs
  ascends := pairwise_sorted fs
  keeps line ruleNo := by
    refine filter_mergeSort precedes_trans precedes_total (fun f g hf hg => ?_) fs
    obtain ⟨hline, hrule⟩ := of_decide_eq_true hf
    obtain ⟨hline', hrule'⟩ := of_decide_eq_true hg
    have hkey : f.key = g.key := key_eq_iff.mpr ⟨hline.trans hline'.symm, hrule.trans hrule'.symm⟩
    exact precedes_iff.mpr hkey.le

/-- **There is one way to sort a list.** -/
theorem sorts_iff {gs fs : List Finding} : Sorts gs fs ↔ gs = sorted fs := by
  constructor
  · intro h
    refine eq_of_pairwise_of_filter_eq h.ascends (pairwise_sorted fs) fun f => ?_
    simp only [key_eq_iff]
    rw [h.keeps, (sorts_sorted fs).keeps]
  · rintro rfl
    exact sorts_sorted fs

end PlcAudit.Finding
