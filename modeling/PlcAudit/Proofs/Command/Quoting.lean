import PlcAudit.Checker
import PlcAudit.Proofs.Command.Rules
import PlcAudit.Settings.Basic

/-!
# Words that are quoted

A command is written as a list of words or as one line, and a line can say whatever words say: in
single quotes everything stands for itself, and the one character that cannot stand there, the
quote, is put between two quoted stretches with a backslash before it.

By the quoting rules little is left to show.  A quoted word is made of pieces, and the blanks around
it are no part of it.  What becomes of blanks, backslashes, line ends and number signs in a word has
been settled for all pieces.

* `exists_pieces_quoteWord`: the pieces of a quoted word.
* `spells_intercalate`: quoted words with any blanks between them.
* `shapes_equally_expressive`: a command as a line is a command as words.
-/

namespace PlcAudit.Command

/-- Quoted characters in pieces.  The stretch of them that stands in quotes by now is `run`. -/
theorem exists_pieces_quoteChar {run : List Char} (hrun : '\'' ∉ run) (cs : List Char) :
    ∃ ps, writtenOf ps = '\'' :: (run ++ (cs.flatMap quoteChar ++ ['\''])) ∧
      meantOf ps = run ++ cs := by
  induction cs generalizing run with
  | nil => exact ⟨[.single run hrun], List.append_nil _, rfl⟩
  | cons c cs ih =>
    by_cases hquote : c = '\''
    · subst hquote
      obtain ⟨ps, hwritten, hmeant⟩ := ih List.not_mem_nil
      refine ⟨.single run hrun :: .escaped '\'' (by decide) :: ps, ?_, ?_⟩
      · rw [writtenOf_cons, writtenOf_cons, hwritten]
        simp [Piece.written, quoteChar]
      · rw [meantOf_cons, meantOf_cons, hmeant]
        rfl
    · have hlonger : '\'' ∉ run ++ [c] := by
        rw [List.mem_append, List.mem_singleton, not_or]
        exact ⟨hrun, Ne.symm hquote⟩
      obtain ⟨ps, hwritten, hmeant⟩ := ih hlonger
      refine ⟨ps, ?_, ?_⟩
      · rw [hwritten, List.flatMap_cons, quoteChar, if_neg hquote]
        simp
      · rw [hmeant, List.append_assoc, List.singleton_append]

/-- **A quoted word is made of pieces** that mean the word. -/
theorem exists_pieces_quoteWord (w : String) :
    ∃ ps, writtenOf ps = quoteWord w ∧ meantOf ps = w.toList :=
  exists_pieces_quoteChar List.not_mem_nil w.toList

theorem beginsWord_quoteWord (w : String) (l : List Char) : BeginsWord (quoteWord w ++ l) :=
  ⟨'\'', _, rfl, by decide, by decide, fun h => absurd h (by decide)⟩

/-- A quoted word, and what is spelled after it. -/
theorem Spells.quoteWord {ws : List (List Char)} {l : List Char} (w : String) (hend : EndsWord l)
    (h : Spells ws l) : Spells (w.toList :: ws) (quoteWord w ++ l) := by
  obtain ⟨ps, hwritten, hmeant⟩ := exists_pieces_quoteWord w
  have hbegin := beginsWord_quoteWord w l
  rw [← hwritten] at hbegin ⊢
  rw [← hmeant]
  exact .word hbegin hend h

theorem Spells.separators {gap l : List Char} {ws : List (List Char)}
    (hgap : ∀ c ∈ gap, isSeparator c = true) (h : Spells ws l) : Spells ws (gap ++ l) := by
  induction gap with
  | nil => exact h
  | cons c gap ih =>
    obtain ⟨hc, hgap⟩ := List.forall_mem_cons.mp hgap
    exact .separator hc (ih hgap)

/-- **Quoted words spell the words,** whatever blanks stand between them. -/
theorem spells_intercalate {gap : List Char} (hne : gap ≠ [])
    (hgap : ∀ c ∈ gap, isSeparator c = true) (ws : List String) :
    Spells (ws.map String.toList) (gap.intercalate (ws.map quoteWord)) := by
  match ws with
  | [] => exact .nothing
  | [w] =>
    have hlast := Spells.nothing.quoteWord w endsWord_nil
    rw [List.append_nil] at hlast
    rw [List.map_singleton, List.map_singleton, List.intercalate_singleton]
    exact hlast
  | w :: v :: ws =>
    have hrest := Spells.separators hgap (spells_intercalate hne hgap (v :: ws))
    have hend : EndsWord (gap ++ gap.intercalate ((v :: ws).map quoteWord)) := by
      intro c hc
      rw [List.head?_append_of_ne_nil _ hne] at hc
      exact hgap c (List.mem_of_mem_head? hc)
    have hjoin : gap.intercalate ((w :: v :: ws).map quoteWord) =
        quoteWord w ++ (gap ++ gap.intercalate ((v :: ws).map quoteWord)) := by
      rw [List.map_cons, List.map_cons, List.intercalate_cons_cons, List.append_assoc]
    rw [hjoin]
    exact hrest.quoteWord w hend

/-- The words of a line of quoted words. -/
theorem splitWords_quoteWords (ws : List String) : splitWords (quoteWords ws) = some ws := by
  rw [splitWords_eq_some_iff, quoteWords, String.toList_ofList]
  exact spells_intercalate (List.cons_ne_nil _ _) (List.forall_mem_singleton.mpr rfl) ws

/-- An empty word, a word with a quote, and words with what has a meaning outside quotes. -/
example : quoteWords ["", "it's", "a b", "#\\"] = "'' 'it'\\''s' 'a b' '#\\'" := by decide

/-- **The two shapes of a command say the same.**  Whatever the words are, the line in which each of
them stands in single quotes, with blanks between them, is split into these words, for the settings
as well as for a checker. -/
theorem shapes_equally_expressive (ws : List String) :
    (EngineCommand.line (quoteWords ws)).words? = some ws ∧
      (EngineCommand.words ws).words? = some ws ∧
      Checker.ofCommandLine (quoteWords ws) = some { command := ws } := by
  refine ⟨splitWords_quoteWords ws, rfl, ?_⟩
  rw [Checker.ofCommandLine, splitWords_quoteWords]
  rfl

end PlcAudit.Command
