import PlcAudit.Proofs.Source.Lines

/-!
# Line numbers are stable

What is put behind a text does not move its lines, and which terminators it has does not matter.
Both are laws about two scans, and both have the same exception in their way: a carriage return and
a line feed end one line together and two lines apart.  Behind a carriage return a line feed belongs
to what is already there, so it is taken over before the texts are joined.

The first law is proved of the description of lines and carried to the scan by its uniqueness: the
descriptions of two parts are put together to one of the whole.

* `Divides.append`: parts that end between two lines are put together.
* `Divides.takeOver`: a line feed behind a carriage return makes no line.
* `Divides.dropLast_prefix_append`: only the last line can change.
* `charLines_unified`: a line feed in the place of each terminator.
* `line_numbers_stable`: the statement for texts.
-/

namespace PlcAudit.Source

section Joining

variable {α : Type*} {lf cr : α}

/-! ## Ends of lists -/

theorem getLast?_line {l t r : List α} (ht : Terminator lf cr t) :
    (l ++ t ++ r).getLast? = if r = [] then t.getLast? else r.getLast? := by
  by_cases hr : r = []
  · rw [if_pos hr, hr, List.append_nil, List.getLast?_append_of_ne_nil _ ht.ne_nil]
  · rw [if_neg hr, List.getLast?_append_of_ne_nil _ hr]

/-- A list in which no line ends does not end with a terminator. -/
theorem OnOneLine.getLast?_ne {l : List α} (h : OnOneLine lf cr l) :
    l.getLast? ≠ some lf ∧ l.getLast? ≠ some cr :=
  ⟨fun hl => h.1 (List.mem_of_getLast? hl), fun hl => h.2 (List.mem_of_getLast? hl)⟩

/-- A list ends between two lines: nothing is left of a line, and a terminator is complete. -/
def EndsBefore (lf cr : α) (as bs : List α) : Prop :=
  as = [] ∨ as.getLast? = some lf ∨ as.getLast? = some cr ∧ bs.head? ≠ some lf

theorem OnOneLine.not_endsBefore {l bs : List α} (h : OnOneLine lf cr l) (hnil : l ≠ []) :
    ¬ EndsBefore lf cr l bs := by
  rintro (hend | hend | ⟨hend, -⟩)
  · exact hnil hend
  · exact h.getLast?_ne.1 hend
  · exact h.getLast?_ne.2 hend

/-- Behind the last line of a list stands what is joined to the list. -/
theorem endsBefore_line {l t bs : List α} (hne : lf ≠ cr) (ht : Terminator lf cr t)
    (h : EndsBefore lf cr (l ++ t) bs) : t = [cr] → bs.head? ≠ some lf := by
  rintro rfl
  have hlast : (l ++ [cr]).getLast? = some cr := List.getLast?_concat
  rcases h with h | h | ⟨-, h⟩
  · exact absurd h (List.append_ne_nil_of_right_ne_nil _ (List.cons_ne_nil _ _))
  · exact absurd (Option.some.inj (h.symm.trans hlast)) hne
  · exact h

/-- A list ends as what stands behind its first line does. -/
theorem endsBefore_rest {l t r bs : List α} (ht : Terminator lf cr t)
    (h : EndsBefore lf cr (l ++ t ++ r) bs) : EndsBefore lf cr r bs := by
  by_cases hr : r = []
  · exact Or.inl hr
  · rw [EndsBefore, getLast?_line ht, if_neg hr] at h
    rcases h with h | h | h
    · exact absurd (List.append_eq_nil_iff.mp h).2 hr
    · exact Or.inr (Or.inl h)
    · exact Or.inr (Or.inr h)

/-! ## Joined lists -/

/-- **Parts that end between two lines are put together.** -/
theorem Divides.append (hne : lf ≠ cr) {as bs : List α} {ls ms : List (List α)}
    (h : Divides lf cr ls as) (hend : EndsBefore lf cr as bs) (hbs : Divides lf cr ms bs) :
    Divides lf cr (ls ++ ms) (as ++ bs) := by
  induction h with
  | nil => exact hbs
  | last hl hnil => exact absurd hend (hl.not_endsBefore hnil)
  | @line l t r ls hl ht hr _ ih =>
    have hrest : t = [cr] → (r ++ bs).head? ≠ some lf := by
      by_cases hnil : r = []
      · -- the terminator of this line is the end of the first part
        rw [hnil, List.append_nil] at hend
        rw [hnil, List.nil_append]
        exact endsBefore_line hne ht hend
      · rwa [List.head?_append_of_ne_nil _ hnil]
    rw [List.append_assoc (l ++ t)]
    exact .line hl ht hrest (ih (endsBefore_rest ht hend))

/-- **A line feed behind a carriage return makes no line.** -/
theorem Divides.takeOver (hne : lf ≠ cr) {as : List α} {ls : List (List α)}
    (h : Divides lf cr ls as) (hend : as.getLast? = some cr) :
    Divides lf cr ls (as ++ [lf]) := by
  induction h with
  | nil => exact nomatch hend
  | last hl _ => exact absurd hend hl.getLast?_ne.2
  | @line l t r ls hl ht hr hls ih =>
    rw [getLast?_line ht] at hend
    rw [List.append_assoc (l ++ t)]
    by_cases hnil : r = []
    · -- the carriage return ends this line, and there is no other one behind it
      subst hnil
      rw [if_pos rfl] at hend
      rw [hls.eq_nil]
      cases ht with
      | feed => exact absurd (Option.some.inj hend) hne
      | carriageReturn =>
        have hline : Divides lf cr [l] (l ++ [cr, lf] ++ []) :=
          .line hl .both (fun h => nomatch h) .nil
        simpa using hline
      | both => exact absurd (Option.some.inj hend) hne
    · rw [if_neg hnil] at hend
      refine .line hl ht ?_ (ih hend)
      rwa [List.head?_append_of_ne_nil _ hnil]

/-- **Only the last line can change** when something is put behind a list. -/
theorem Divides.dropLast_prefix_append [DecidableEq α] (hne : lf ≠ cr) {as : List α}
    {ls : List (List α)} (h : Divides lf cr ls as) (bs : List α) :
    ls.dropLast <+: splitLines lf cr (as ++ bs) := by
  induction h with
  | nil => exact List.nil_prefix
  | last _ _ => exact List.nil_prefix
  | @line l t r ls hl ht hr hls ih =>
    by_cases hnil : r = []
    · -- there is no line behind this one
      subst hnil
      rw [hls.eq_nil]
      exact List.nil_prefix
    · have hrest : t = [cr] → (r ++ bs).head? ≠ some lf := by
        rwa [List.head?_append_of_ne_nil _ hnil]
      rw [List.append_assoc (l ++ t), splitLines_append hne hl ht hrest]
      cases ls with
      | nil => exact List.nil_prefix
      | cons m ls =>
        rw [List.dropLast_cons_cons]
        exact List.cons_prefix_cons.mpr ⟨rfl, ih⟩

end Joining

/-! ## One terminator for all -/

/-- A text with a line feed in the place of each terminator. -/
def unified : List Char → List Char
  | [] => []
  | '\r' :: '\n' :: r => '\n' :: unified r
  | c :: r => (if c = '\r' then '\n' else c) :: unified r

theorem return_notMem_unified (cs : List Char) : '\r' ∉ unified cs := by
  fun_induction unified cs with
  | case1 => exact List.not_mem_nil
  | case2 r ih => simp [ih]
  | case3 c r _ ih =>
    by_cases hc : c = '\r'
    · simp [hc, ih]
    · simp [hc, ih, Ne.symm hc]

/-- **A line feed in the place of each terminator** leaves the lines as they are. -/
theorem charLines_unified (cs : List Char) : charLines (unified cs) = charLines cs := by
  unfold charLines
  fun_induction unified cs with
  | case1 => rfl
  | case2 r ih =>
    rw [splitLines_feed, splitLines_carriageReturn feed_ne_return, dropFeed_cons_self, ih]
  | case3 c r hcrlf ih =>
    by_cases hcr : c = '\r'
    · -- no line feed belongs to this carriage return
      have hhead : r.head? ≠ some '\n' := by
        intro h
        obtain ⟨r', hr⟩ : ∃ r', r = '\n' :: r' := ⟨r.tail, List.eq_cons_of_mem_head? h⟩
        exact hcrlf r' hcr hr
      rw [if_pos hcr, hcr, splitLines_feed, splitLines_carriageReturn feed_ne_return,
        dropFeed_of_head?_ne hhead, ih]
    · rw [if_neg hcr]
      by_cases hlf : c = '\n'
      · rw [hlf, splitLines_feed, splitLines_feed, ih]
      · rw [splitLines_cons ⟨hlf, hcr⟩, splitLines_cons ⟨hlf, hcr⟩, ih]

/-! ## Texts -/

/-- What is left of a text for the lines behind another one, which takes over a line feed if it ends
with a carriage return. -/
def restAfter (s t : String) : String :=
  if s.toList.getLast? = some '\r' then String.ofList (dropFeed '\n' t.toList) else t

/-- A text with a line feed in the place of each terminator. -/
def unifyEnds (s : String) : String := String.ofList (unified s.toList)

theorem lineAt?_congr {s t : String} (h : linesOf s = linesOf t) (n : Option UInt32) :
    lineAt? s n = lineAt? t n := by
  unfold lineAt?
  rw [h]

theorem linesOf_unifyEnds (s : String) : linesOf (unifyEnds s) = linesOf s := by
  rw [linesOf, unifyEnds, String.toList_ofList, charLines_unified]
  rfl

theorem divides_linesOf (s : String) :
    Divides '\n' '\r' ((linesOf s).map String.toList) s.toList := by
  rw [map_toList_linesOf]
  exact divides_splitLines feed_ne_return _

/-- Texts of which the first ends between two lines have the lines of both. -/
theorem linesOf_append {s t : String}
    (h : s = "" ∨ s.toList.getLast? = some '\n' ∨ s.toList.getLast? = some '\r') :
    linesOf (s ++ t) = linesOf s ++ linesOf (restAfter s t) := by
  have hs := divides_linesOf s
  have hrest := divides_linesOf (restAfter s t)
  have hjoined : Divides '\n' '\r' ((linesOf s ++ linesOf (restAfter s t)).map String.toList)
      (s ++ t).toList := by
    rw [List.map_append, String.toList_append]
    by_cases hcr : s.toList.getLast? = some '\r'
    · rw [restAfter, if_pos hcr, String.toList_ofList] at hrest
      rw [restAfter, if_pos hcr]
      by_cases hhead : t.toList.head? = some '\n'
      · -- the line feed is taken over, and then the first text ends with it
        obtain ⟨r, hr⟩ : ∃ r, t.toList = '\n' :: r :=
          ⟨t.toList.tail, List.eq_cons_of_mem_head? hhead⟩
        rw [hr, dropFeed_cons_self] at hrest ⊢
        have hends : EndsBefore '\n' '\r' (s.toList ++ ['\n']) r :=
          Or.inr (Or.inl List.getLast?_concat)
        have hwhole := (hs.takeOver feed_ne_return hcr).append feed_ne_return hends hrest
        rwa [List.append_assoc] at hwhole
      · rw [dropFeed_of_head?_ne hhead] at hrest ⊢
        rw [String.ofList_toList] at hrest ⊢
        exact hs.append feed_ne_return (Or.inr (Or.inr ⟨hcr, hhead⟩)) hrest
    · rw [restAfter, if_neg hcr] at hrest ⊢
      refine hs.append feed_ne_return ?_ hrest
      rcases h with rfl | h | h
      · exact Or.inl rfl
      · exact Or.inr (Or.inl h)
      · exact absurd h hcr
  rw [eq_comm, eq_linesOf_iff]
  exact (divides_iff feed_ne_return).mp hjoined

/-- **Line numbers are stable.**  Behind a text that is empty or ends with a terminator come the
lines of what is put behind it, less a line feed that belongs to a carriage return at its end.
Behind any other text all its lines but the last one stay.  A line feed in the place of each
terminator leaves no carriage return and changes no line and no number. -/
theorem line_numbers_stable (s t : String) :
    (s = "" ∨ s.toList.getLast? = some '\n' ∨ s.toList.getLast? = some '\r' →
        linesOf (s ++ t) = linesOf s ++ linesOf (restAfter s t)) ∧
      (linesOf s).dropLast <+: linesOf (s ++ t) ∧
      '\r' ∉ (unifyEnds s).toList ∧ linesOf (unifyEnds s) = linesOf s ∧
      ∀ n, lineAt? (unifyEnds s) n = lineAt? s n := by
  refine ⟨linesOf_append, ?_, ?_, linesOf_unifyEnds s, lineAt?_congr (linesOf_unifyEnds s)⟩
  · have hdivides := divides_splitLines feed_ne_return s.toList
    have hprefix := hdivides.dropLast_prefix_append feed_ne_return t.toList
    rw [linesOf, linesOf, ← List.map_dropLast, String.toList_append]
    exact hprefix.map String.ofList
  · rw [unifyEnds, String.toList_ofList]
    exact return_notMem_unified s.toList

/-- A terminator that is cut in two: its line feed is taken over, and the empty line it would make
alone is not counted. -/
theorem line_numbers_stable_across_cut :
    linesOf ("a\r" ++ "\nb") = linesOf "a\r" ++ linesOf (restAfter "a\r" "\nb") ∧
      linesOf (restAfter "a\r" "\nb") = ["b"] ∧ linesOf "\nb" = ["", "b"] :=
  ⟨(line_numbers_stable "a\r" "\nb").1 (by decide), by decide, by decide⟩

end PlcAudit.Source
