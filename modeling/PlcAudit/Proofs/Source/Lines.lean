import Mathlib.Data.List.Basic
import PlcAudit.Source.Lines

/-!
# What the lines of a text are

The scan that gives the lines of a text goes through it once and keeps one bit: whether a carriage
return has just ended a line, so that a line feed would belong to it.  That bit is all that connects
a symbol with the one before it, and so it can be traded for a look ahead: after a carriage return
the scan goes on with the rest, less a line feed at its front.  With this the scan is compared to a
description of the lines that does not mention a scan at all: each line is free of terminators and
is followed by one, a carriage return alone has no line feed behind it, and the last line may end
with the text if there is something in it.

* `Divides`: what it means that lines divide a list, over any alphabet with the two terminators.
* `splitLines_append`: the scan takes a line and its terminator off the front.
* `divides_iff`: there is one way to divide a list, and the scan finds it.
* `lineAt?_eq_some_iff`, `lineAt?_eq_none_iff`: what a number gets.
* `divided_into_lines`: the statement for texts.
-/

namespace PlcAudit.Source

variable {α : Type*} {lf cr : α}

/-! ## Dividing a list into lines -/

/-- What may end a line: the line feed, the carriage return, or the two in this order. -/
inductive Terminator (lf cr : α) : List α → Prop
  | feed : Terminator lf cr [lf]
  | carriageReturn : Terminator lf cr [cr]
  | both : Terminator lf cr [cr, lf]

/-- A list in which no line ends. -/
def OnOneLine (lf cr : α) (l : List α) : Prop := lf ∉ l ∧ cr ∉ l

/-- **What it means that lines divide a list.**  The list is made up of the lines in order, each
with a terminator behind it.  The last one may do without if it is not empty, and a carriage return
that stands alone has no line feed behind it. -/
inductive Divides (lf cr : α) : List (List α) → List α → Prop
  | nil : Divides lf cr [] []
  | last {l : List α} : OnOneLine lf cr l → l ≠ [] → Divides lf cr [l] l
  | line {l t r : List α} {ls : List (List α)} : OnOneLine lf cr l → Terminator lf cr t →
      (t = [cr] → r.head? ≠ some lf) → Divides lf cr ls r → Divides lf cr (l :: ls) (l ++ t ++ r)

theorem onOneLine_nil (lf cr : α) : OnOneLine lf cr [] := ⟨List.not_mem_nil, List.not_mem_nil⟩

theorem onOneLine_cons {a : α} {l : List α} :
    OnOneLine lf cr (a :: l) ↔ (a ≠ lf ∧ a ≠ cr) ∧ OnOneLine lf cr l := by
  simp only [OnOneLine, List.mem_cons, not_or, ne_eq, eq_comm (a := a)]
  tauto

theorem OnOneLine.append {l l' : List α} (h : OnOneLine lf cr l) (h' : OnOneLine lf cr l') :
    OnOneLine lf cr (l ++ l') := by
  simp only [OnOneLine, List.mem_append, not_or]
  exact ⟨⟨h.1, h'.1⟩, h.2, h'.2⟩

theorem Terminator.ne_nil {t : List α} (h : Terminator lf cr t) : t ≠ [] := by
  cases h <;> exact List.cons_ne_nil _ _

/-- The empty list has no lines. -/
theorem Divides.eq_nil {ls : List (List α)} (h : Divides lf cr ls []) : ls = [] := by
  generalize has : ([] : List α) = as at h
  cases h with
  | nil => rfl
  | last _ hnil => exact absurd has.symm hnil
  | @line l t r _ _ ht _ _ =>
    have hlt : l ++ t = [] := (List.append_eq_nil_iff.mp has.symm).1
    exact absurd (List.append_eq_nil_iff.mp hlt).2 ht.ne_nil

/-- A symbol that ends no line makes the first line longer. -/
theorem Divides.consLine {a : α} {r : List α} {ls : List (List α)} (ha : a ≠ lf ∧ a ≠ cr)
    (h : Divides lf cr ls r) : Divides lf cr (consLine a ls) (a :: r) := by
  cases h with
  | nil => exact .last (onOneLine_cons.mpr ⟨ha, onOneLine_nil lf cr⟩) (List.cons_ne_nil _ _)
  | last hl _ => exact .last (onOneLine_cons.mpr ⟨ha, hl⟩) (List.cons_ne_nil _ _)
  | line hl ht hr hls => exact .line (onOneLine_cons.mpr ⟨ha, hl⟩) ht hr hls

/-- No line ends within a line. -/
theorem Divides.onOneLine {ls : List (List α)} {as : List α} (h : Divides lf cr ls as)
    {l : List α} (hl : l ∈ ls) : OnOneLine lf cr l := by
  induction h with
  | nil => cases hl
  | last hone _ => rwa [List.mem_singleton.mp hl]
  | line hone _ _ _ ih =>
    rcases List.mem_cons.mp hl with rfl | hrest
    · exact hone
    · exact ih hrest

/-- A line has no other symbols than the list that it is a line of. -/
theorem Divides.mem {ls : List (List α)} {as : List α} (h : Divides lf cr ls as)
    {l : List α} (hl : l ∈ ls) {a : α} (ha : a ∈ l) : a ∈ as := by
  induction h with
  | nil => cases hl
  | last _ _ => rwa [List.mem_singleton.mp hl] at ha
  | line _ _ _ _ ih =>
    rw [List.mem_append, List.mem_append]
    rcases List.mem_cons.mp hl with rfl | hrest
    · exact .inl (.inl ha)
    · exact .inr (ih hrest)

/-! ## The scan -/

section Scan

variable [DecidableEq α]

/-- A list without a line feed at its front. -/
def dropFeed (lf : α) : List α → List α
  | [] => []
  | a :: r => if a = lf then r else a :: r

@[simp] theorem dropFeed_cons_self (lf : α) (r : List α) : dropFeed lf (lf :: r) = r := if_pos rfl

theorem dropFeed_of_head?_ne {r : List α} (h : r.head? ≠ some lf) : dropFeed lf r = r := by
  cases r with
  | nil => rfl
  | cons a r => exact if_neg fun ha => h (congrArg some ha)

theorem length_dropFeed_le (lf : α) (r : List α) : (dropFeed lf r).length ≤ r.length := by
  cases r with
  | nil => exact Nat.le_refl _
  | cons a r =>
    rw [dropFeed]
    split
    · exact Nat.le_succ _
    · exact Nat.le_refl _

/-- After a carriage return the scan goes on with the rest, less a line feed at its front. -/
theorem splitLinesFrom_true (lf cr : α) (r : List α) :
    splitLinesFrom lf cr true r = splitLines lf cr (dropFeed lf r) := by
  cases r with
  | nil => rfl
  | cons a r =>
    by_cases ha : a = lf
    · subst ha
      simp [splitLinesFrom, splitLines]
    · simp [splitLinesFrom, splitLines, dropFeed, ha]

@[simp] theorem splitLines_feed (lf cr : α) (r : List α) :
    splitLines lf cr (lf :: r) = [] :: splitLines lf cr r := by
  simp [splitLines, splitLinesFrom]

theorem splitLines_carriageReturn (hne : lf ≠ cr) (r : List α) :
    splitLines lf cr (cr :: r) = [] :: splitLines lf cr (dropFeed lf r) := by
  rw [← splitLinesFrom_true]
  simp [splitLines, splitLinesFrom, hne.symm]

theorem splitLines_cons {a : α} (ha : a ≠ lf ∧ a ≠ cr) (r : List α) :
    splitLines lf cr (a :: r) = consLine a (splitLines lf cr r) := by
  simp [splitLines, splitLinesFrom, ha.1, ha.2]

/-- **The scan takes a line and its terminator off the front.** -/
theorem splitLines_append (hne : lf ≠ cr) {l t r : List α} (hl : OnOneLine lf cr l)
    (ht : Terminator lf cr t) (hr : t = [cr] → r.head? ≠ some lf) :
    splitLines lf cr (l ++ t ++ r) = l :: splitLines lf cr r := by
  induction l with
  | nil =>
    cases ht with
    | feed => exact splitLines_feed lf cr r
    | carriageReturn =>
      have hdrop : dropFeed lf r = r := dropFeed_of_head?_ne (hr rfl)
      show splitLines lf cr (cr :: r) = _
      rw [splitLines_carriageReturn hne, hdrop]
    | both =>
      show splitLines lf cr (cr :: lf :: r) = _
      rw [splitLines_carriageReturn hne, dropFeed_cons_self]
  | cons a l ih =>
    obtain ⟨ha, hl'⟩ := onOneLine_cons.mp hl
    rw [List.cons_append, List.cons_append, splitLines_cons ha, ih hl']
    rfl

/-- A list in which no line ends is its own line. -/
theorem splitLines_of_onOneLine {l : List α} (hl : OnOneLine lf cr l) (hnil : l ≠ []) :
    splitLines lf cr l = [l] := by
  induction l with
  | nil => exact absurd rfl hnil
  | cons a l ih =>
    obtain ⟨ha, hl'⟩ := onOneLine_cons.mp hl
    rw [splitLines_cons ha]
    by_cases h : l = []
    · rw [h]
      rfl
    · rw [ih hl' h]
      rfl

/-- The lines that the scan finds divide the list. -/
theorem divides_splitLines (hne : lf ≠ cr) : ∀ as : List α, Divides lf cr (splitLines lf cr as) as
  | [] => .nil
  | a :: r => by
    by_cases hlf : a = lf
    · rw [hlf, splitLines_feed]
      exact .line (onOneLine_nil _ _) .feed (fun h => absurd (List.cons.inj h).1 hne)
        (divides_splitLines hne r)
    · by_cases hcr : a = cr
      · rw [hcr, splitLines_carriageReturn hne]
        have ih := divides_splitLines hne (dropFeed lf r)
        by_cases hhead : r.head? = some lf
        · -- the line feed belongs to the terminator
          obtain ⟨r', rfl⟩ : ∃ r', r = lf :: r' := ⟨r.tail, List.eq_cons_of_mem_head? hhead⟩
          rw [dropFeed_cons_self] at ih ⊢
          exact .line (onOneLine_nil _ _) .both (fun h => nomatch h) ih
        · rw [dropFeed_of_head?_ne hhead] at ih ⊢
          exact .line (onOneLine_nil _ _) .carriageReturn (fun _ => hhead) ih
      · rw [splitLines_cons ⟨hlf, hcr⟩]
        exact (divides_splitLines hne r).consLine ⟨hlf, hcr⟩
termination_by as => as.length
decreasing_by
  · exact Nat.lt_succ_self _
  · exact Nat.lt_succ_of_le (length_dropFeed_le lf r)
  · exact Nat.lt_succ_self _

/-- **There is one way to divide a list into lines,** and the scan finds it. -/
theorem divides_iff (hne : lf ≠ cr) {ls : List (List α)} {as : List α} :
    Divides lf cr ls as ↔ ls = splitLines lf cr as := by
  constructor
  · intro h
    induction h with
    | nil => rfl
    | last hl hnil => exact (splitLines_of_onOneLine hl hnil).symm
    | line hl ht hr _ ih => rw [splitLines_append hne hl ht hr, ih]
  · rintro rfl
    exact divides_splitLines hne as

end Scan

/-! ## Lines of texts -/

theorem feed_ne_return : '\n' ≠ '\r' := by decide

theorem map_toList_linesOf (s : String) : (linesOf s).map String.toList = charLines s.toList := by
  rw [linesOf, List.map_map]
  exact (List.map_congr_left fun _ _ => String.toList_ofList).trans (List.map_id _)

theorem eq_linesOf_iff {ls : List String} {s : String} :
    ls = linesOf s ↔ ls.map String.toList = charLines s.toList := by
  rw [← map_toList_linesOf]
  constructor
  · intro h
    rw [h]
  · intro h
    exact List.map_injective_iff.mpr (fun _ _ => String.toList_inj.mp) h

/-! ## Lines by number -/

/-- A line that is found has a number, and stands in its place. -/
theorem lineAt?_eq_some_iff {s l : String} {n : Option UInt32} :
    lineAt? s n = some l ↔
      ∃ k, n = some k ∧ 1 ≤ k.toNat ∧ (linesOf s)[k.toNat - 1]? = some l := by
  cases n with
  | none => simp
  | some k =>
    have hk : k = 0 ↔ ¬ 1 ≤ k.toNat := by
      rw [← UInt32.toNat_inj]
      show k.toNat = 0 ↔ _
      omega
    by_cases h : k = 0
    · subst h
      simp
    · have hpos : 1 ≤ k.toNat := not_not.mp (mt hk.mpr h)
      simp [lineAt?, h, hpos]

/-- What is found is one of the lines that the scan finds. -/
theorem toList_mem_charLines {s l : String} {n : Option UInt32} (h : lineAt? s n = some l) :
    l.toList ∈ charLines s.toList := by
  obtain ⟨k, -, -, hget⟩ := lineAt?_eq_some_iff.mp h
  rw [← map_toList_linesOf]
  exact List.mem_map_of_mem (List.mem_of_getElem? hget)

/-- No line ends within a line that is found. -/
theorem onOneLine_of_lineAt? {s l : String} {n : Option UInt32} (h : lineAt? s n = some l) :
    OnOneLine '\n' '\r' l.toList :=
  (divides_splitLines feed_ne_return _).onOneLine (toList_mem_charLines h)

/-- A line that is found has no other characters than the text. -/
theorem mem_of_lineAt? {s l : String} {n : Option UInt32} (h : lineAt? s n = some l) {c : Char}
    (hc : c ∈ l.toList) : c ∈ s.toList :=
  (divides_splitLines feed_ne_return _).mem (toList_mem_charLines h) hc

/-- Nothing is found without a number, at zero, and beyond the last line. -/
theorem lineAt?_eq_none_iff {s : String} {n : Option UInt32} :
    lineAt? s n = none ↔
      ∀ k, n = some k → ¬ (1 ≤ k.toNat ∧ k.toNat ≤ (linesOf s).length) := by
  rw [Option.eq_none_iff_forall_ne_some]
  constructor
  · rintro h k rfl ⟨hpos, hle⟩
    have hlt : k.toNat - 1 < (linesOf s).length := by omega
    exact h _ (lineAt?_eq_some_iff.mpr ⟨k, rfl, hpos, List.getElem?_eq_getElem hlt⟩)
  · intro h l hl
    obtain ⟨k, hk, hpos, hget⟩ := lineAt?_eq_some_iff.mp hl
    obtain ⟨hlt, -⟩ := List.getElem?_eq_some_iff.mp hget
    exact h k hk ⟨hpos, by omega⟩

/-- **The lines of a text,** whatever its terminators.  They are the only texts that divide it: none
of them holds a terminator, each is followed by one, a carriage return alone is not followed by a
line feed, and the last one may end with the text if it is not empty.  A number from one to the
number of lines gets the line in its place, and anything else gets nothing. -/
theorem divided_into_lines (s : String) :
    (∀ ls : List String,
        Divides '\n' '\r' (ls.map String.toList) s.toList ↔ ls = linesOf s) ∧
      ∀ n : Option UInt32,
        (∀ l, lineAt? s n = some l ↔
          ∃ k, n = some k ∧ 1 ≤ k.toNat ∧ (linesOf s)[k.toNat - 1]? = some l) ∧
        (lineAt? s n = none ↔
          ∀ k, n = some k → ¬ (1 ≤ k.toNat ∧ k.toNat ≤ (linesOf s).length)) := by
  refine ⟨fun ls => ?_, fun n => ⟨fun l => lineAt?_eq_some_iff, lineAt?_eq_none_iff⟩⟩
  rw [divides_iff feed_ne_return, eq_linesOf_iff]
  rfl

/-- All three terminators, an empty line between two of them, and a last line that has none. -/
example : linesOf "one\r\ntwo\r\rthree\nfour" = ["one", "two", "", "three", "four"] := by decide

end PlcAudit.Source
