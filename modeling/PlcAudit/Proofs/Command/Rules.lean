import Mathlib.Data.List.Basic
import PlcAudit.Command.Words

/-!
# The quoting rules of a line

The words of a line are read by a machine that goes from one character to the next and keeps what it
has of a word.  The rules that it is to follow speak of something else: of words made of pieces,
each of which is written in one way and means something, with blanks and comments around them.  Here
the rules are stated in their own terms, and the machine reads what they say and nothing else.

A rule may need to know what follows.  A backslash before a line end is taken away with it, so that
between words no word begins there, while within a word that word goes on; and a number sign begins
a comment only where a word would begin.

* `Inner`, `Piece`: the pieces of a word, with what is written and what is meant.
* `Spells`: the rules.
* `splitFrom_pieces`: the machine on the pieces of a word.
* `exists_pieces`: what has been read when a word ends.
* `splitWords_eq_some_iff`: the words of a line are those that the rules give.
-/

namespace PlcAudit.Command

/-! ## Pieces -/

/-- What stands between double quotes. -/
inductive Inner where
  | plain (c : Char) (h : c ≠ '"' ∧ c ≠ '\\')
  /-- A character that is kept by a backslash. -/
  | escaped (c : Char) (h : isEscapable c = true)
  /-- A backslash before a character that needs none: both are kept. -/
  | backslash (c : Char) (h : isEscapable c = false ∧ c ≠ '\n')
  /-- A backslash before a line end: neither is kept. -/
  | joined

/-- What is written for it. -/
def Inner.written : Inner → List Char
  | .plain c _ => [c]
  | .escaped c _ => ['\\', c]
  | .backslash c _ => ['\\', c]
  | .joined => ['\\', '\n']

/-- What it means. -/
def Inner.meant : Inner → List Char
  | .plain c _ => [c]
  | .escaped c _ => [c]
  | .backslash c _ => ['\\', c]
  | .joined => []

/-- Whether a character in a word stands for itself. -/
def IsPlain (c : Char) : Prop := c ≠ '\'' ∧ c ≠ '"' ∧ c ≠ '\\' ∧ isSeparator c = false

/-- A piece of a word. -/
inductive Piece where
  | plain (c : Char) (h : IsPlain c)
  /-- A character that is kept by a backslash. -/
  | escaped (c : Char) (h : c ≠ '\n')
  /-- A backslash before a line end: neither is kept. -/
  | joined
  | single (cs : List Char) (h : '\'' ∉ cs)
  | double (is : List Inner)

/-- What is written for a piece. -/
def Piece.written : Piece → List Char
  | .plain c _ => [c]
  | .escaped c _ => ['\\', c]
  | .joined => ['\\', '\n']
  | .single cs _ => '\'' :: (cs ++ ['\''])
  | .double is => '"' :: (is.flatMap Inner.written ++ ['"'])

/-- What a piece means. -/
def Piece.meant : Piece → List Char
  | .plain c _ => [c]
  | .escaped c _ => [c]
  | .joined => []
  | .single cs _ => cs
  | .double is => is.flatMap Inner.meant

/-- What is written for pieces one after the other. -/
def writtenOf (ps : List Piece) : List Char := ps.flatMap Piece.written

/-- What pieces one after the other mean. -/
def meantOf (ps : List Piece) : List Char := ps.flatMap Piece.meant

@[simp] theorem writtenOf_nil : writtenOf [] = [] := rfl

@[simp] theorem meantOf_nil : meantOf [] = [] := rfl

@[simp] theorem writtenOf_cons (p : Piece) (ps : List Piece) :
    writtenOf (p :: ps) = p.written ++ writtenOf ps := List.flatMap_cons

@[simp] theorem meantOf_cons (p : Piece) (ps : List Piece) :
    meantOf (p :: ps) = p.meant ++ meantOf ps := List.flatMap_cons

/-- What follows something is shorter than both together. -/
theorem length_lt_append {a : List Char} (h : 0 < a.length) (l : List Char) :
    l.length < (a ++ l).length := by
  rw [List.length_append]
  exact Nat.lt_add_of_pos_left h

theorem Inner.length_written_pos (i : Inner) : 0 < i.written.length := by
  cases i <;> exact Nat.succ_pos _

theorem Piece.length_written_pos (p : Piece) : 0 < p.written.length := by
  cases p <;> exact Nat.succ_pos _

/-! ## The rules -/

/-- Whether a word begins with the text: not with a blank, a comment, or a line end that is taken
away. -/
def BeginsWord (l : List Char) : Prop :=
  ∃ c cs, l = c :: cs ∧ isSeparator c = false ∧ c ≠ '#' ∧ (c = '\\' → cs.head? ≠ some '\n')

/-- Whether a word ends before the text: nothing follows, or a blank. -/
def EndsWord (l : List Char) : Prop := ∀ c ∈ l.head?, isSeparator c = true

theorem endsWord_nil : EndsWord [] := nofun

/-- **The quoting rules.**  The words that a text spells: blanks, comments and line ends that are
taken away spell none, and a word is what its pieces mean.  A backslash at the very end is kept. -/
inductive Spells : List (List Char) → List Char → Prop
  | nothing : Spells [] []
  | separator {c ws l} (hc : isSeparator c = true) (h : Spells ws l) : Spells ws (c :: l)
  | joined {ws l} (h : Spells ws l) : Spells ws ('\\' :: '\n' :: l)
  | comment {cs ws l} (hcs : '\n' ∉ cs) (h : Spells ws l) : Spells ws ('#' :: (cs ++ '\n' :: l))
  | lastComment {cs} (hcs : '\n' ∉ cs) : Spells [] ('#' :: cs)
  | word {ps ws l} (hbegin : BeginsWord (writtenOf ps ++ l)) (hend : EndsWord l) (h : Spells ws l) :
      Spells (meantOf ps :: ws) (writtenOf ps ++ l)
  | lastBackslash {ps} (hbegin : BeginsWord (writtenOf ps ++ ['\\'])) :
      Spells [meantOf ps ++ ['\\']] (writtenOf ps ++ ['\\'])

/-! ## Steps of the machine -/

section Steps

variable (w : List Char) (c : Char) (l : List Char)

theorem splitFrom_between_cons : splitFrom .between w (c :: l) =
    if c = '\'' then splitFrom .single w l
    else if c = '"' then splitFrom .double w l
    else if c = '\\' then splitFrom .escapedBetween w l
    else if isSeparator c then splitFrom .between w l
    else if c = '#' then splitFrom .comment w l
    else splitFrom .word (c :: w) l := rfl

theorem splitFrom_word_cons : splitFrom .word w (c :: l) =
    if c = '\'' then splitFrom .single w l
    else if c = '"' then splitFrom .double w l
    else if c = '\\' then splitFrom .escapedWord w l
    else if isSeparator c then (splitFrom .between [] l).map (w.reverse :: ·)
    else splitFrom .word (c :: w) l := rfl

theorem splitFrom_escapedBetween_cons : splitFrom .escapedBetween w (c :: l) =
    if c = '\n' then splitFrom .between w l else splitFrom .word (c :: w) l := rfl

theorem splitFrom_escapedWord_cons : splitFrom .escapedWord w (c :: l) =
    if c = '\n' then splitFrom .word w l else splitFrom .word (c :: w) l := rfl

theorem splitFrom_single_cons : splitFrom .single w (c :: l) =
    if c = '\'' then splitFrom .word w l else splitFrom .single (c :: w) l := rfl

theorem splitFrom_double_cons : splitFrom .double w (c :: l) =
    if c = '"' then splitFrom .word w l
    else if c = '\\' then splitFrom .escapedDouble w l
    else splitFrom .double (c :: w) l := rfl

theorem splitFrom_escapedDouble_cons : splitFrom .escapedDouble w (c :: l) =
    if c = '\n' then splitFrom .double w l
    else if isEscapable c then splitFrom .double (c :: w) l
    else splitFrom .double (c :: '\\' :: w) l := rfl

theorem splitFrom_comment_cons : splitFrom .comment w (c :: l) =
    if c = '\n' then splitFrom .between w l else splitFrom .comment w l := rfl

theorem splitFrom_numberSign : splitFrom .between w ('#' :: l) = splitFrom .comment w l := rfl

theorem splitFrom_joined : splitFrom .between w ('\\' :: '\n' :: l) = splitFrom .between w l := rfl

theorem splitFrom_lastBackslash : splitFrom .word w ['\\'] = some [('\\' :: w).reverse] := rfl

variable {c}

theorem ne_of_isSeparator {d : Char} (hc : isSeparator c = true) (hd : isSeparator d = false) :
    c ≠ d := by
  rintro rfl
  exact Bool.false_ne_true (hd.symm.trans hc)

theorem splitFrom_between_separator (hc : isSeparator c = true) :
    splitFrom .between w (c :: l) = splitFrom .between w l := by
  rw [splitFrom_between_cons, if_neg (ne_of_isSeparator hc rfl), if_neg (ne_of_isSeparator hc rfl),
    if_neg (ne_of_isSeparator hc rfl), if_pos hc]

theorem splitFrom_word_separator (hc : isSeparator c = true) :
    splitFrom .word w (c :: l) = (splitFrom .between [] l).map (w.reverse :: ·) := by
  rw [splitFrom_word_cons, if_neg (ne_of_isSeparator hc rfl), if_neg (ne_of_isSeparator hc rfl),
    if_neg (ne_of_isSeparator hc rfl), if_pos hc]

end Steps

/-! ## The machine on pieces -/

section Reading

variable (w : List Char)

theorem splitFrom_single {cs : List Char} (h : '\'' ∉ cs) (l : List Char) :
    splitFrom .single w (cs ++ '\'' :: l) = splitFrom .word (cs.reverse ++ w) l := by
  induction cs generalizing w with
  | nil => rfl
  | cons c cs ih =>
    obtain ⟨hc, hcs⟩ := not_or.mp (mt List.mem_cons.mpr h)
    rw [List.cons_append, splitFrom_single_cons, if_neg (Ne.symm hc), ih _ hcs, List.reverse_cons,
      List.append_assoc, List.singleton_append]

/-- A quote that is not closed leaves no words. -/
theorem splitFrom_single_eq_none {l : List Char} (h : '\'' ∉ l) : splitFrom .single w l = none := by
  induction l generalizing w with
  | nil => rfl
  | cons c l ih =>
    obtain ⟨hc, hl⟩ := not_or.mp (mt List.mem_cons.mpr h)
    rw [splitFrom_single_cons, if_neg (Ne.symm hc), ih _ hl]

theorem splitFrom_comment {cs : List Char} (h : '\n' ∉ cs) (l : List Char) :
    splitFrom .comment w (cs ++ '\n' :: l) = splitFrom .between w l := by
  induction cs with
  | nil => rfl
  | cons c cs ih =>
    obtain ⟨hc, hcs⟩ := not_or.mp (mt List.mem_cons.mpr h)
    rw [List.cons_append, splitFrom_comment_cons, if_neg (Ne.symm hc), ih hcs]

theorem splitFrom_lastComment {cs : List Char} (h : '\n' ∉ cs) :
    splitFrom .comment w cs = some [] := by
  induction cs with
  | nil => rfl
  | cons c cs ih =>
    obtain ⟨hc, hcs⟩ := not_or.mp (mt List.mem_cons.mpr h)
    rw [splitFrom_comment_cons, if_neg (Ne.symm hc), ih hcs]

theorem splitFrom_inner (i : Inner) (l : List Char) :
    splitFrom .double w (i.written ++ l) = splitFrom .double (i.meant.reverse ++ w) l := by
  -- a backslash between double quotes, and the character after it
  have hescape (c : Char) : splitFrom .double w ('\\' :: c :: l) =
      splitFrom .escapedDouble w (c :: l) := rfl
  cases i with
  | plain c h =>
    change splitFrom .double w (c :: l) = splitFrom .double (c :: w) l
    rw [splitFrom_double_cons, if_neg h.1, if_neg h.2]
  | escaped c h =>
    have hc : c ≠ '\n' := by
      rintro rfl
      exact Bool.false_ne_true h
    change splitFrom .double w ('\\' :: c :: l) = splitFrom .double (c :: w) l
    rw [hescape, splitFrom_escapedDouble_cons, if_neg hc, if_pos h]
  | backslash c h =>
    change splitFrom .double w ('\\' :: c :: l) = splitFrom .double (c :: '\\' :: w) l
    rw [hescape, splitFrom_escapedDouble_cons, if_neg h.2, if_neg (Bool.eq_false_iff.mp h.1)]
  | joined => rfl

theorem splitFrom_double (is : List Inner) (l : List Char) :
    splitFrom .double w (is.flatMap Inner.written ++ '"' :: l) =
      splitFrom .word ((is.flatMap Inner.meant).reverse ++ w) l := by
  induction is generalizing w with
  | nil => rfl
  | cons i is ih =>
    rw [List.flatMap_cons, List.append_assoc, splitFrom_inner, ih, List.flatMap_cons,
      List.reverse_append, List.append_assoc]

/-- **The machine on a piece of a word** has then read what the piece means. -/
theorem splitFrom_piece (p : Piece) (l : List Char) :
    splitFrom .word w (p.written ++ l) = splitFrom .word (p.meant.reverse ++ w) l := by
  cases p with
  | plain c h =>
    obtain ⟨hsingle, hdouble, hbackslash, hblank⟩ := h
    change splitFrom .word w (c :: l) = splitFrom .word (c :: w) l
    rw [splitFrom_word_cons, if_neg hsingle, if_neg hdouble, if_neg hbackslash,
      if_neg (Bool.eq_false_iff.mp hblank)]
  | escaped c h =>
    change splitFrom .escapedWord w (c :: l) = splitFrom .word (c :: w) l
    rw [splitFrom_escapedWord_cons, if_neg h]
  | joined => rfl
  | single cs h =>
    change splitFrom .single w ((cs ++ ['\'']) ++ l) = splitFrom .word (cs.reverse ++ w) l
    rw [List.append_assoc, List.singleton_append, splitFrom_single w h]
  | double is =>
    change splitFrom .double w ((is.flatMap Inner.written ++ ['"']) ++ l) =
      splitFrom .word ((is.flatMap Inner.meant).reverse ++ w) l
    rw [List.append_assoc, List.singleton_append, splitFrom_double]

theorem splitFrom_pieces (ps : List Piece) (l : List Char) :
    splitFrom .word w (writtenOf ps ++ l) = splitFrom .word ((meantOf ps).reverse ++ w) l := by
  induction ps generalizing w with
  | nil => rfl
  | cons p ps ih =>
    rw [writtenOf_cons, List.append_assoc, splitFrom_piece, ih, meantOf_cons, List.reverse_append,
      List.append_assoc]

/-- Where a word begins, the machine may as well be in it already. -/
theorem splitFrom_of_beginsWord {l : List Char} (h : BeginsWord l) :
    splitFrom .between w l = splitFrom .word w l := by
  obtain ⟨c, cs, rfl, hblank, hcomment, hjoined⟩ := h
  by_cases hbackslash : c = '\\'
  · subst hbackslash
    cases cs with
    | nil => rfl
    | cons d cs =>
      have hd : d ≠ '\n' := fun h => hjoined rfl (congrArg some h)
      change splitFrom .escapedBetween w (d :: cs) = splitFrom .escapedWord w (d :: cs)
      rw [splitFrom_escapedBetween_cons, splitFrom_escapedWord_cons, if_neg hd, if_neg hd]
  · rw [splitFrom_between_cons, splitFrom_word_cons]
    simp only [hbackslash, hblank, hcomment, if_false, Bool.false_eq_true]

/-- Where a word ends, the machine goes on between words. -/
theorem splitFrom_of_endsWord {l : List Char} (h : EndsWord l) :
    splitFrom .word w l = (splitFrom .between [] l).map (w.reverse :: ·) := by
  cases l with
  | nil => rfl
  | cons c l =>
    have hc : isSeparator c = true := h c rfl
    rw [splitFrom_word_separator w l hc, splitFrom_between_separator [] l hc]

end Reading

/-- **The machine reads what the rules say.** -/
theorem Spells.splitFrom_eq {ws : List (List Char)} {l : List Char} (h : Spells ws l) :
    splitFrom .between [] l = some ws := by
  induction h with
  | nothing => rfl
  | separator hc _ ih => rw [splitFrom_between_separator _ _ hc, ih]
  | joined _ ih => rw [splitFrom_joined, ih]
  | comment hcs _ ih => rw [splitFrom_numberSign, splitFrom_comment _ hcs, ih]
  | lastComment hcs => rw [splitFrom_numberSign, splitFrom_lastComment _ hcs]
  | word hbegin hend _ ih =>
    rw [splitFrom_of_beginsWord _ hbegin, splitFrom_pieces, splitFrom_of_endsWord _ hend, ih,
      List.append_nil, List.reverse_reverse]
    rfl
  | lastBackslash hbegin =>
    rw [splitFrom_of_beginsWord _ hbegin, splitFrom_pieces, splitFrom_lastBackslash,
      List.append_nil, List.reverse_cons, List.reverse_reverse]

/-! ## What has been read -/

/-- Between double quotes, what does not close them is a piece of what they hold. -/
theorem exists_inner {w l : List Char} {c : Char} {ws : List (List Char)} (hquote : c ≠ '"')
    (h : splitFrom .double w (c :: l) = some ws) :
    ∃ (i : Inner) (l' : List Char), c :: l = i.written ++ l' := by
  by_cases hbackslash : c = '\\'
  · subst hbackslash
    match l with
    | [] => exact nomatch h
    | c :: l =>
      by_cases hnewline : c = '\n'
      · exact ⟨.joined, l, by rw [hnewline]; rfl⟩
      by_cases hescapable : isEscapable c = true
      · exact ⟨.escaped c hescapable, l, rfl⟩
      · exact ⟨.backslash c ⟨Bool.eq_false_iff.mpr hescapable, hnewline⟩, l, rfl⟩
  · exact ⟨.plain c ⟨hquote, hbackslash⟩, l, rfl⟩

/-- What stands between double quotes that are closed is made of its pieces. -/
theorem exists_inners {w l : List Char} {ws : List (List Char)}
    (h : splitFrom .double w l = some ws) :
    ∃ (is : List Inner) (l' : List Char), l = is.flatMap Inner.written ++ '"' :: l' := by
  induction hn : l.length using Nat.strongRecOn generalizing w l with
  | ind n ih =>
    subst hn
    match l with
    | [] => exact nomatch h
    | c :: l =>
      by_cases hquote : c = '"'
      · exact ⟨[], l, by rw [hquote]; rfl⟩
      obtain ⟨i, l', hl⟩ := exists_inner hquote h
      have hlength : l'.length < (c :: l).length := by
        rw [hl]
        exact length_lt_append i.length_written_pos l'
      rw [hl, splitFrom_inner] at h
      obtain ⟨is, l'', rfl⟩ := ih _ hlength h rfl
      exact ⟨i :: is, l'', by rw [hl, List.flatMap_cons, List.append_assoc]⟩

/-- In a word, what is no blank is a piece of it, unless the line ends with a backslash. -/
theorem exists_piece {w l : List Char} {c : Char} {ws : List (List Char)}
    (hc : isSeparator c = false) (h : splitFrom .word w (c :: l) = some ws) :
    (∃ (p : Piece) (l' : List Char), c :: l = p.written ++ l') ∨ c :: l = ['\\'] := by
  by_cases hsingle : c = '\''
  · subst hsingle
    have hopen : splitFrom .single w l = some ws := h
    have hclosed : '\'' ∈ l := by
      by_contra hnever
      rw [splitFrom_single_eq_none w hnever] at hopen
      exact nomatch hopen
    obtain ⟨cs, l', rfl, hcs⟩ := List.eq_append_cons_of_mem hclosed
    exact Or.inl ⟨.single cs hcs, l', by simp [Piece.written]⟩
  by_cases hdouble : c = '"'
  · subst hdouble
    have hopen : splitFrom .double w l = some ws := h
    obtain ⟨is, l', rfl⟩ := exists_inners hopen
    exact Or.inl ⟨.double is, l', by simp [Piece.written]⟩
  by_cases hbackslash : c = '\\'
  · subst hbackslash
    match l with
    | [] => exact Or.inr rfl
    | c :: l =>
      by_cases hnewline : c = '\n'
      · exact Or.inl ⟨.joined, l, by rw [hnewline]; rfl⟩
      · exact Or.inl ⟨.escaped c hnewline, l, rfl⟩
  · exact Or.inl ⟨.plain c ⟨hsingle, hdouble, hbackslash, hc⟩, l, rfl⟩

/-- What the rest of a line is, and which words it gives, when `v` is what the word at hand means so
far: some pieces of the word, and then a blank or the end, or a backslash at the very end. -/
inductive Continues (v : List Char) : List (List Char) → List Char → Prop
  | ends {ps ws l} (hend : EndsWord l) (hrest : splitFrom .between [] l = some ws) :
      Continues v ((v ++ meantOf ps) :: ws) (writtenOf ps ++ l)
  | lastBackslash {ps} : Continues v [v ++ meantOf ps ++ ['\\']] (writtenOf ps ++ ['\\'])

theorem Continues.piece {v l : List Char} {ws : List (List Char)} (p : Piece)
    (h : Continues (v ++ p.meant) ws l) : Continues v ws (p.written ++ l) := by
  cases h with
  | @ends ps ws l hend hrest =>
    have hall : Continues v ((v ++ meantOf (p :: ps)) :: ws) (writtenOf (p :: ps) ++ l) :=
      .ends hend hrest
    rwa [meantOf_cons, writtenOf_cons, ← List.append_assoc, List.append_assoc p.written] at hall
  | @lastBackslash ps =>
    have hall : Continues v _ (writtenOf (p :: ps) ++ ['\\']) := .lastBackslash
    rwa [meantOf_cons, writtenOf_cons, ← List.append_assoc v, List.append_assoc p.written] at hall

/-- **What has been read when a word ends.** -/
theorem continues_of_splitFrom {w l : List Char} {ws : List (List Char)}
    (h : splitFrom .word w l = some ws) : Continues w.reverse ws l := by
  induction hn : l.length using Nat.strongRecOn generalizing w l with
  | ind n ih =>
    subst hn
    by_cases hend : EndsWord l
    · rw [splitFrom_of_endsWord w hend] at h
      obtain ⟨ws', hrest, rfl⟩ := Option.map_eq_some_iff.mp h
      have hnone : Continues w.reverse _ (writtenOf [] ++ l) := .ends hend hrest
      rwa [meantOf_nil, List.append_nil] at hnone
    · match l with
      | [] => exact absurd endsWord_nil hend
      | c :: l =>
        have hc : isSeparator c = false := by
          refine Bool.eq_false_iff.mpr fun hc => hend fun d hd => ?_
          rwa [← Option.some_inj.mp hd]
        rcases exists_piece hc h with ⟨p, l', hl⟩ | hl
        · have hlength : l'.length < (c :: l).length := by
            rw [hl]
            exact length_lt_append p.length_written_pos l'
          rw [hl, splitFrom_piece] at h
          have hrest := ih _ hlength h rfl
          rw [List.reverse_append, List.reverse_reverse] at hrest
          rw [hl]
          exact hrest.piece p
        · rw [hl, splitFrom_lastBackslash] at h
          have hlast : Continues w.reverse _ (writtenOf [] ++ ['\\']) := .lastBackslash
          rw [hl, ← Option.some_inj.mp h, List.reverse_cons]
          rwa [meantOf_nil, List.append_nil] at hlast

/-- Where no word begins, there is nothing, a blank, a comment, or a line end that is taken away. -/
theorem cases_of_not_beginsWord {c : Char} {l : List Char} (h : ¬ BeginsWord (c :: l)) :
    isSeparator c = true ∨ c = '#' ∨ c = '\\' ∧ ∃ l', l = '\n' :: l' := by
  by_contra! hcases
  obtain ⟨hblank, hcomment, hjoined⟩ := hcases
  refine h ⟨c, l, rfl, Bool.eq_false_iff.mpr hblank, hcomment, fun hbackslash hnewline => ?_⟩
  obtain ⟨l', hl⟩ := List.head?_eq_some_iff.mp hnewline
  exact hjoined hbackslash l' hl

/-- A word that begins and does not end at once has pieces. -/
theorem length_writtenOf_pos {ps : List Piece} {l : List Char}
    (hbegin : BeginsWord (writtenOf ps ++ l)) (hend : EndsWord l) :
    0 < (writtenOf ps).length := by
  cases ps with
  | nil =>
    obtain ⟨c, cs, rfl, hblank, -⟩ := hbegin
    exact absurd ((hend c rfl).symm.trans hblank) (by decide)
  | cons p ps =>
    rw [writtenOf_cons, List.length_append]
    exact Nat.add_pos_left p.length_written_pos _

/-- **The rules say what the machine reads.** -/
theorem spells_of_splitFrom {l : List Char} {ws : List (List Char)}
    (h : splitFrom .between [] l = some ws) : Spells ws l := by
  induction hn : l.length using Nat.strongRecOn generalizing l ws with
  | ind n ih =>
    subst hn
    by_cases hbegin : BeginsWord l
    · rw [splitFrom_of_beginsWord [] hbegin] at h
      cases continues_of_splitFrom h with
      | @ends ps ws l' hend hrest =>
        have hlength := length_lt_append (length_writtenOf_pos hbegin hend) l'
        exact .word hbegin hend (ih _ hlength hrest rfl)
      | lastBackslash => exact .lastBackslash hbegin
    · match l with
      | [] =>
        obtain rfl : [] = ws := Option.some_inj.mp h
        exact .nothing
      | c :: l =>
        rcases cases_of_not_beginsWord hbegin with hblank | rfl | ⟨rfl, l', rfl⟩
        · rw [splitFrom_between_separator [] l hblank] at h
          exact .separator hblank (ih _ (Nat.lt_succ_self _) h rfl)
        · rw [splitFrom_numberSign] at h
          by_cases hnewline : '\n' ∈ l
          · obtain ⟨cs, l', rfl, hcs⟩ := List.eq_append_cons_of_mem hnewline
            have hlength : l'.length < ('#' :: (cs ++ '\n' :: l')).length := by
              rw [List.length_cons, List.length_append, List.length_cons]
              omega
            rw [splitFrom_comment [] hcs] at h
            exact .comment hcs (ih _ hlength h rfl)
          · rw [splitFrom_lastComment [] hnewline] at h
            obtain rfl : [] = ws := Option.some_inj.mp h
            exact .lastComment hnewline
        · have hlength : l'.length < ('\\' :: '\n' :: l').length := by
            rw [List.length_cons, List.length_cons]
            omega
          rw [splitFrom_joined] at h
          exact .joined (ih _ hlength h rfl)

theorem splitFrom_eq_some_iff {l : List Char} {ws : List (List Char)} :
    splitFrom .between [] l = some ws ↔ Spells ws l :=
  ⟨spells_of_splitFrom, Spells.splitFrom_eq⟩

/-- The rules leave no choice. -/
theorem Spells.unique {l : List Char} {ws ws' : List (List Char)} (h : Spells ws l)
    (h' : Spells ws' l) : ws = ws' :=
  Option.some_inj.mp (h.splitFrom_eq.symm.trans h'.splitFrom_eq)

/-- **The words of a line are those that the rules give.** -/
theorem splitWords_eq_some_iff {line : String} {ws : List String} :
    splitWords line = some ws ↔ Spells (ws.map String.toList) line.toList := by
  rw [← splitFrom_eq_some_iff, splitWords, Option.map_eq_some_iff]
  constructor
  · rintro ⟨cs, hcs, rfl⟩
    have hback : (cs.map String.ofList).map String.toList = cs := by
      simp [List.map_map, Function.comp_def]
    rw [hcs, hback]
  · intro h
    have hback : (ws.map String.toList).map String.ofList = ws := by
      simp [List.map_map, Function.comp_def]
    exact ⟨_, h, hback⟩

/-- Every kind of piece, and a comment. -/
example : splitWords "che'ck 'er\\  \"a \\$ \\z\" # none" = some ["check er ", "a $ \\z"] := by
  decide

end PlcAudit.Command
