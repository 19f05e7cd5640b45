import Mathlib.Algebra.Order.Floor.Semifield
import Mathlib.Data.Finset.Max
import Mathlib.Data.Rat.Floor
import PlcAudit.Console.Report
import PlcAudit.Proofs.Report.Tallies

/-!
# Bars in proportion

The bar of a rule is computed in 64-bit words: a product, a quotient that is rounded up, and a limit
on either side.  Words cannot tell that a product has left them, so the computation is repeated here
with every step checked, and what is promised of a bar is promised of the checked computation.  The
number of cells itself is compared with the fraction that it stands for, rounded up.

How long the first bar is, and that none is longer than the one above it, is nowhere computed.  Both
come from the order of the table: the greatest count, which is the scale, is the count of its first
rule.

* `cells?`, with `cells?_eq_some_iff`: the computation with every step checked, and where it goes
  through.
* `share`, with `toNat_cells`: the fraction of the width, rounded up, and that it is drawn.
* `isGreatest_maxCount`, `maxCount_frequency`: the scale of a table.
* `View.DrawsInProportion`: what it means that the bars of a table are in proportion.
* `bars_in_proportion`: the tables of all lists of violations, and bars of any width.
-/

namespace PlcAudit.Console

/-! ## Steps that are checked -/

/-- The product of two words, if it is a word. -/
def product? (a b : UInt64) : Option UInt64 :=
  if a.toNat * b.toNat < UInt64.size then some (a * b) else none

/-- The sum of two words, if it is a word. -/
def sum? (a b : UInt64) : Option UInt64 :=
  if a.toNat + b.toNat < UInt64.size then some (a + b) else none

/-- The quotient of two words, rounded up, if nothing is divided by zero and it is a word. -/
def divCeil? (a b : UInt64) : Option UInt64 :=
  if b = 0 then none else if a % b = 0 then some (a / b) else sum? (a / b) 1

/-- A word brought between two bounds, if they are in order. -/
def clamp? (low high n : UInt64) : Option UInt64 :=
  if low ≤ high then some (if n < low then low else if high < n then high else n) else none

/-- **The number of cells of a bar, with every step checked:** nothing when a product or a sum
leaves the words, when a divisor is zero, or when there is no room for a single cell. -/
def cells? (count max width : UInt64) : Option UInt64 :=
  if count = 0 ∨ max = 0 then some 0
  else do clamp? 1 width (← divCeil? (← product? count width) max)

section Words

variable {a b : UInt64}

/-- Where there is something to round up, the divisor is two at least, and so there is room for one
more. -/
theorem succ_div_lt_size (hb : b ≠ 0) (hmod : a % b ≠ 0) :
    a.toNat / b.toNat + 1 < UInt64.size := by
  have hmod' : a.toNat % b.toNat ≠ 0 := fun h => hmod (UInt64.toNat_inj.mp h)
  have hb' : b.toNat ≠ 0 := fun h => hb (UInt64.toNat_inj.mp h)
  have htwo : 2 ≤ b.toNat := by
    by_contra hlt
    have hone : b.toNat = 1 := by omega
    exact hmod' (by rw [hone, Nat.mod_one])
  have hquotient : a.toNat / b.toNat ≤ a.toNat / 2 := Nat.div_le_div_left htwo (by decide)
  have ha : a.toNat < UInt64.size := a.toNat_lt_size
  have hsize : UInt64.size = 18446744073709551616 := rfl
  omega

theorem divCeil?_eq (hb : b ≠ 0) : divCeil? a b = some (divCeil a b) := by
  rw [divCeil?, if_neg hb, divCeil]
  by_cases hmod : a % b = 0
  · rw [if_pos hmod, if_pos hmod]
  · have hsum : (a / b).toNat + (1 : UInt64).toNat < UInt64.size := by
      rw [UInt64.toNat_div]
      exact succ_div_lt_size hb hmod
    rw [if_neg hmod, if_neg hmod, sum?, if_pos hsum]

/-- **The quotient is the least number of divisors that cover the dividend.** -/
theorem toNat_divCeil_le_iff (hb : b ≠ 0) {k : ℕ} :
    (divCeil a b).toNat ≤ k ↔ a.toNat ≤ k * b.toNat := by
  have hpos : 0 < b.toNat := Nat.pos_of_ne_zero fun h => hb (UInt64.toNat_inj.mp h)
  rw [divCeil]
  by_cases hmod : a % b = 0
  · obtain ⟨q, hq⟩ : b.toNat ∣ a.toNat := Nat.dvd_of_mod_eq_zero (congrArg UInt64.toNat hmod)
    rw [if_pos hmod, UInt64.toNat_div, hq, Nat.mul_div_cancel_left _ hpos, Nat.mul_comm,
      Nat.mul_le_mul_right_iff hpos]
  · have hne : a.toNat ≠ k * b.toNat := by
      intro h
      refine hmod (UInt64.toNat_inj.mp ?_)
      rw [UInt64.toNat_mod, h, Nat.mul_mod_left]
      rfl
    have hsum : (a / b + 1).toNat = a.toNat / b.toNat + 1 := by
      rw [UInt64.toNat_add, UInt64.toNat_div]
      exact Nat.mod_eq_of_lt (succ_div_lt_size hb hmod)
    rw [if_neg hmod, hsum, Nat.succ_le_iff, Nat.div_lt_iff_lt_mul hpos]
    omega

end Words

variable {count max width : UInt64}

/-- **Where the computation goes through,** and that it is the unchecked one there. -/
theorem cells?_eq_some_iff {n : UInt64} : cells? count max width = some n ↔
    cells count max width = n ∧
      (count = 0 ∨ max = 0 ∨ count.toNat * width.toNat < UInt64.size ∧ 1 ≤ width) := by
  rw [cells?, cells]
  by_cases hzero : count = 0 ∨ max = 0
  · rw [if_pos hzero, if_pos hzero, Option.some_inj]
    exact ⟨fun h => ⟨h, hzero.imp_right Or.inl⟩, And.left⟩
  · have hmax : max ≠ 0 := fun h => hzero (Or.inr h)
    rw [if_neg hzero, if_neg hzero, ← or_assoc, or_iff_right hzero, product?]
    by_cases hfits : count.toNat * width.toNat < UInt64.size
    · rw [if_pos hfits, and_iff_right hfits]
      change (divCeil? (count * width) max).bind (clamp? 1 width) = some n ↔ _
      rw [divCeil?_eq hmax, Option.bind_some, clamp?]
      by_cases hwidth : 1 ≤ width
      · rw [if_pos hwidth, Option.some_inj, and_iff_left hwidth]
      · rw [if_neg hwidth]
        exact ⟨nofun, fun h => absurd h.2 hwidth⟩
    · rw [if_neg hfits]
      exact ⟨nofun, fun h => absurd h.2.1 hfits⟩

/-! ## Shares -/

/-- The share of `width` cells that `count` has when `max` has all of them, rounded up. -/
def share (width count max : ℕ) : ℕ := ⌈(width * count : ℚ) / max⌉₊

section Shares

variable {w c d m k : ℕ}

theorem share_le_iff (hm : 0 < m) : share w c m ≤ k ↔ w * c ≤ k * m := by
  have hm' : (0 : ℚ) < m := Nat.cast_pos.mpr hm
  rw [share, Nat.ceil_le, div_le_iff₀ hm']
  norm_cast

@[simp] theorem share_zero : share w 0 m = 0 := by
  rw [share, Nat.cast_zero, mul_zero, zero_div, Nat.ceil_zero]

/-- The greatest count fills the width. -/
theorem share_self (hm : 0 < m) : share w m m = w :=
  eq_of_forall_ge_iff fun k => by rw [share_le_iff hm, Nat.mul_le_mul_right_iff hm]

/-- A greater count has no smaller share. -/
theorem share_mono (h : c ≤ d) : share w c m ≤ share w d m := by
  have hcast : (c : ℚ) ≤ d := Nat.cast_le.mpr h
  refine Nat.ceil_mono (div_le_div_of_nonneg_right ?_ (Nat.cast_nonneg m))
  exact mul_le_mul_of_nonneg_left hcast (Nat.cast_nonneg w)

/-- A count within the scale has a share within the width. -/
theorem share_le (hm : 0 < m) (h : c ≤ m) : share w c m ≤ w :=
  (share_mono h).trans (share_self hm).le

/-- A count has a cell. -/
theorem one_le_share (hw : 1 ≤ w) (hc : 1 ≤ c) (hm : 0 < m) : 1 ≤ share w c m := by
  by_contra hlt
  have hnone : w * c ≤ 0 * m := (share_le_iff hm).mp (by omega)
  have hpos : 0 < w * c := Nat.mul_pos hw hc
  omega

end Shares

/-! ## The cells of a bar -/

theorem length_bar : (bar count max width).length = (cells count max width).toNat :=
  List.length_replicate

/-- **The cells of a bar are the share of its count,** if the count is within the scale and the
product is a word: the limits change nothing then. -/
theorem toNat_cells (hle : count ≤ max) (hwidth : 1 ≤ width)
    (hfits : count.toNat * width.toNat < UInt64.size) :
    (cells count max width).toNat = share width.toNat count.toNat max.toNat := by
  have hle' : count.toNat ≤ max.toNat := UInt64.le_iff_toNat_le.mp hle
  have hwidth' : 1 ≤ width.toNat := UInt64.le_iff_toNat_le.mp hwidth
  by_cases hcount : count = 0
  · subst hcount
    rw [cells, if_pos (Or.inl rfl)]
    exact share_zero.symm
  · have hcount' : 1 ≤ count.toNat :=
      Nat.pos_of_ne_zero fun h => hcount (UInt64.toNat_inj.mp h)
    have hmax' : 0 < max.toNat := by omega
    have hmax : max ≠ 0 := by
      rintro rfl
      exact absurd hmax' (by decide)
    have hproduct : (count * width).toNat = width.toNat * count.toNat := by
      rw [UInt64.toNat_mul, Nat.mul_comm]
      exact Nat.mod_eq_of_lt (by rwa [Nat.mul_comm] at hfits)
    have hquotient : (divCeil (count * width) max).toNat =
        share width.toNat count.toNat max.toNat :=
      eq_of_forall_ge_iff fun k => by
        rw [toNat_divCeil_le_iff hmax, share_le_iff hmax', hproduct]
    have hlow : ¬ divCeil (count * width) max < 1 := by
      rw [UInt64.lt_iff_toNat_lt, hquotient, show (1 : UInt64).toNat = 1 from rfl, not_lt]
      exact one_le_share hwidth' hcount' hmax'
    have hhigh : ¬ width < divCeil (count * width) max := by
      rw [UInt64.lt_iff_toNat_lt, hquotient, not_lt]
      exact share_le hmax' hle'
    have hzero : ¬ (count = 0 ∨ max = 0) := fun h => h.elim hcount hmax
    rw [cells, if_neg hzero, if_neg hlow, if_neg hhigh, hquotient]

/-- The whole bar, of a width that it fills, and of one that is less than the scale. -/
example : bar 3 3 4 = ['█', '█', '█', '█'] ∧ bar 1 100 4 = ['█'] := by decide

/-! ## The table -/

namespace View

variable {ts : List Tally} {t : Tally} {fs : List Finding}

/-! ### The scale -/

theorem maxCount_le_iff {k : ℕ} : maxCount ts ≤ k ↔ ∀ t ∈ ts, t.count ≤ k := by
  have hmax : (0 :: ts.map (·.count)).max? = some (maxCount ts) := List.max?_cons'
  rw [List.max?_le_iff hmax, List.forall_mem_cons, and_iff_right (Nat.zero_le k),
    List.forall_mem_map]

theorem count_le_maxCount (ht : t ∈ ts) : t.count ≤ maxCount ts := maxCount_le_iff.mp le_rfl t ht

/-- The scale is the count of a rule above which there is none. -/
theorem maxCount_eq (ht : t ∈ ts) (hle : ∀ u ∈ ts, u.count ≤ t.count) : maxCount ts = t.count :=
  le_antisymm (maxCount_le_iff.mpr hle) (count_le_maxCount ht)

theorem isGreatest_maxCount (hne : ts ≠ []) :
    IsGreatest {n | ∃ t ∈ ts, t.count = n} (maxCount ts) := by
  obtain ⟨t, ht, hle⟩ := ts.toFinset.exists_max_image (·.count)
    (List.toFinset_nonempty_iff ts |>.mpr hne)
  simp only [List.mem_toFinset] at ht hle
  rw [maxCount_eq ht hle]
  refine ⟨⟨t, ht, rfl⟩, ?_⟩
  rintro n ⟨u, hu, rfl⟩
  exact hle u hu

/-- **The count of the first rule is the scale.** -/
theorem maxCount_frequency (ht : t ∈ (PlcAudit.frequency fs).head?) :
    maxCount (PlcAudit.frequency fs) = t.count := by
  obtain ⟨us, hus⟩ := List.head?_eq_some_iff.mp ht
  have habove := pairwise_frequency fs
  rw [hus] at habove ⊢
  refine maxCount_eq List.mem_cons_self fun u hu => ?_
  rcases List.mem_cons.mp hu with rfl | hu
  · exact le_rfl
  · exact (List.rel_of_pairwise_cons habove hu).count_le

/-! ### The bars -/

/-- A rule with a bar of `n` cells, and how often it is violated. -/
def rowOf (v : View) (n : ℕ) (t : Tally) : List Char :=
  "    ".toList ++ padded ("Rule " ++ toString t.ruleNo) ++ [' '] ++
    Console.paint v.colour (.coloured .red) (List.replicate n '█') ++ [' '] ++
    (toString t.count).toList ++ ['\n']

/-- The table of a report in which a tally has as many cells as `fill` says. -/
def tableOf (v : View) (fill : Tally → ℕ) (ts : List Tally) : List Char :=
  if ts.isEmpty then []
  else
    v.heading .yellow "  VIOLATION FREQUENCY" ++ ts.flatMap (fun t => v.rowOf (fill t) t) ++ ['\n']

/-- The cells that are due to a tally in a table: its share of twenty-four. -/
def cellsDue (ts : List Tally) (t : Tally) : ℕ := share 24 t.count (maxCount ts)

/-- **What it means that the bars of a table are in proportion.**  Their scale is the greatest
count.  Each rule has its share of the cells, and the computation of it stays within the words; it
is one cell at least, and not more than there are.  The first bar is full, and none is longer than
one above it. -/
structure DrawsInProportion (v : View) (ts : List Tally) : Prop where
  scale : ts ≠ [] → IsGreatest {n | ∃ t ∈ ts, t.count = n} (maxCount ts)
  drawn : v.frequency ts = v.tableOf (cellsDue ts) ts
  checked : ∀ t ∈ ts, ∃ count max n : UInt64, count.toNat = t.count ∧ max.toNat = maxCount ts ∧
    cells? count max barWidth = some n ∧ n.toNat = cellsDue ts t
  within : ∀ t ∈ ts, 1 ≤ cellsDue ts t ∧ cellsDue ts t ≤ 24
  first : ∀ t ∈ ts.head?, cellsDue ts t = 24
  ordered : ts.Pairwise fun t u => cellsDue ts u ≤ cellsDue ts t

theorem count_pos_of_mem (ht : t ∈ PlcAudit.frequency fs) : 1 ≤ t.count :=
  (counts_frequency fs).count_pos t ht

theorem count_le_length (ht : t ∈ PlcAudit.frequency fs) : t.count ≤ fs.length := by
  rw [(counts_frequency fs).count_eq t ht]
  exact List.countP_le_length

/-- **The bar that is drawn for a rule** has the cells that are due, and nothing overflows. -/
theorem cells?_of_mem (hfits : fs.length * 24 < UInt64.size) (ht : t ∈ PlcAudit.frequency fs) :
    t.count.toUInt64.toNat = t.count ∧
      (maxCount (PlcAudit.frequency fs)).toUInt64.toNat = maxCount (PlcAudit.frequency fs) ∧
      ∃ n, cells? t.count.toUInt64 (maxCount (PlcAudit.frequency fs)).toUInt64 barWidth = some n ∧
        n.toNat = cellsDue (PlcAudit.frequency fs) t := by
  have hsize : UInt64.size = 18446744073709551616 := rfl
  have hcount : t.count ≤ fs.length := count_le_length ht
  have hscale : t.count ≤ maxCount (PlcAudit.frequency fs) := count_le_maxCount ht
  have hmax : maxCount (PlcAudit.frequency fs) ≤ fs.length :=
    maxCount_le_iff.mpr fun u hu => count_le_length hu
  have hcount' : t.count.toUInt64.toNat = t.count := UInt64.toNat_ofNat_of_lt (by omega)
  have hmax' : (maxCount (PlcAudit.frequency fs)).toUInt64.toNat =
      maxCount (PlcAudit.frequency fs) := UInt64.toNat_ofNat_of_lt (by omega)
  have hproduct : t.count.toUInt64.toNat * barWidth.toNat < UInt64.size := by
    rw [hcount', show barWidth.toNat = 24 from rfl]
    omega
  have hle : t.count.toUInt64 ≤ (maxCount (PlcAudit.frequency fs)).toUInt64 := by
    rw [UInt64.le_iff_toNat_le, hcount', hmax']
    exact hscale
  have hwidth : 1 ≤ barWidth := by decide
  refine ⟨hcount', hmax', _, cells?_eq_some_iff.mpr ⟨rfl, Or.inr (Or.inr ⟨hproduct, hwidth⟩)⟩, ?_⟩
  rw [toNat_cells hle hwidth hproduct, hcount', hmax']
  rfl

/-- The tables of all lists of violations are in proportion, as long as the products fit. -/
theorem drawsInProportion_frequency (v : View) (hfits : fs.length * 24 < UInt64.size) :
    v.DrawsInProportion (PlcAudit.frequency fs) where
  scale := isGreatest_maxCount
  drawn := by
    have hrow : ∀ t ∈ PlcAudit.frequency fs,
        v.tallyLine (maxCount (PlcAudit.frequency fs)) t =
          v.rowOf (cellsDue (PlcAudit.frequency fs) t) t := by
      intro t ht
      obtain ⟨n, hcells, hn⟩ := (cells?_of_mem hfits ht).2.2
      unfold tallyLine bar rowOf
      rw [(cells?_eq_some_iff.mp hcells).1, hn]
    rw [frequency, tableOf, List.flatMap_congr hrow]
  checked t ht := by
    obtain ⟨hcount, hmax, n, hcells, hn⟩ := cells?_of_mem hfits ht
    exact ⟨_, _, n, hcount, hmax, hcells, hn⟩
  within t ht := by
    have hscale : t.count ≤ maxCount (PlcAudit.frequency fs) := count_le_maxCount ht
    have hpos : 1 ≤ t.count := count_pos_of_mem ht
    exact ⟨one_le_share (by decide) hpos (by omega), share_le (by omega) hscale⟩
  first t ht := by
    have hpos : 1 ≤ t.count := count_pos_of_mem (List.mem_of_mem_head? ht)
    rw [cellsDue, maxCount_frequency ht]
    exact share_self hpos
  ordered := (pairwise_frequency fs).imp fun h => share_mono h.count_le

end View

/-- **Bars are in proportion.**  The table of any list of violations is drawn so, if the length of
the list times the width is a word.  For any width and any scale, a count within it that is not
smaller has a bar that is not shorter, and a count has a cell. -/
theorem bars_in_proportion :
    (∀ (v : View) (fs : List Finding), fs.length * 24 < UInt64.size →
      v.DrawsInProportion (PlcAudit.frequency fs)) ∧
    ∀ a b max width : UInt64, 1 ≤ width → 1 ≤ max → a ≤ b → b ≤ max →
      b.toNat * width.toNat < UInt64.size →
      (bar a max width).length ≤ (bar b max width).length ∧
        (a ≠ 0 → 1 ≤ (bar a max width).length) := by
  refine ⟨fun v fs hfits => v.drawsInProportion_frequency hfits, ?_⟩
  intro a b max width hwidth hmax hab hb hfits
  have hab' : a.toNat ≤ b.toNat := UInt64.le_iff_toNat_le.mp hab
  have hfitsa : a.toNat * width.toNat < UInt64.size :=
    (Nat.mul_le_mul_right _ hab').trans_lt hfits
  rw [length_bar, length_bar, toNat_cells (UInt64.le_trans hab hb) hwidth hfitsa,
    toNat_cells hb hwidth hfits]
  refine ⟨share_mono hab', fun ha => ?_⟩
  exact one_le_share (UInt64.le_iff_toNat_le.mp hwidth)
    (Nat.pos_of_ne_zero fun h => ha (UInt64.toNat_inj.mp h)) (UInt64.le_iff_toNat_le.mp hmax)

/-- Three violations of one rule and one of another, and two counts out of a hundred. -/
theorem bars_of_two_rules :
    [Finding.of .notFollowed 7 "b", .of .notFollowed 4 "a", .of .notFollowed 4 "a",
        .of .notFollowed 4 "a"].length * 24 < UInt64.size ∧
      View.DrawsInProportion ⟨none, {}, false⟩ (PlcAudit.frequency
        [.of .notFollowed 7 "b", .of .notFollowed 4 "a", .of .notFollowed 4 "a",
          .of .notFollowed 4 "a"]) ∧
      PlcAudit.frequency [.of .notFollowed 7 "b", .of .notFollowed 4 "a", .of .notFollowed 4 "a",
          .of .notFollowed 4 "a"] = [⟨4, 3⟩, ⟨7, 1⟩] ∧
      (bar 3 3 24).length = 24 ∧ (bar 1 3 24).length = 8 ∧
      UInt64.toNat 30 * UInt64.toNat 12 < UInt64.size ∧
      (bar 1 100 12).length ≤ (bar 30 100 12).length ∧ 1 ≤ (bar 1 100 12).length := by
  have hfits : [Finding.of .notFollowed 7 "b", .of .notFollowed 4 "a", .of .notFollowed 4 "a",
      .of .notFollowed 4 "a"].length * 24 < UInt64.size := by decide
  have htallies : tallies [.of .notFollowed 7 "b", .of .notFollowed 4 "a", .of .notFollowed 4 "a",
      .of .notFollowed 4 "a"] = [⟨4, 3⟩, ⟨7, 1⟩] := by decide
  have hfrequency : PlcAudit.frequency [.of .notFollowed 7 "b", .of .notFollowed 4 "a",
      .of .notFollowed 4 "a", .of .notFollowed 4 "a"] = [⟨4, 3⟩, ⟨7, 1⟩] := by
    rw [PlcAudit.frequency, htallies]
    simp [List.mergeSort]
  have hproduct : UInt64.toNat 30 * UInt64.toNat 12 < UInt64.size := by decide
  have htwo := bars_in_proportion.2 1 30 100 12 (by decide) (by decide) (by decide) (by decide)
    hproduct
  exact ⟨hfits, bars_in_proportion.1 _ _ hfits, hfrequency, by decide, by decide, hproduct, htwo.1,
    htwo.2 (by decide)⟩

end PlcAudit.Console
