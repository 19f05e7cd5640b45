import Mathlib.Data.List.Infix
import PlcAudit.Toml.Writer

/-!
# Strings that are read back

A string is written in one of four styles, picked by what it holds, and each style has a reader of
its own.  Whatever the string is, the reader gives it back and stops right behind it.

In the two styles on one line a quote that belongs to the text cannot be taken for the closing one:
it is escaped, or the style is not picked.  Between tripled quotes it can stand as it is, and so can
two in a row, even in front of the closing three.  The readers therefore count the quotes that stand
just before, and what has to be shown is that a count below two never meets exactly two more quotes
(`closes_append_eq_none`).  The writer with escapes sees to that by escaping each third quote; the
one without is picked only for a text that has no three in a row.

* `Escape`: what stands behind a backslash for a character, and `Escape.read` that it is read so.
* `readBasic_flatMap`, `readLiteral_append`, `readLongBasic_append`, `readLongLiteral_append`: the
  rest of a string of each style.
* `Style.Holds`: the texts that a style can hold, and `holds_styleOf` that the right one is picked.
* `readString_writeString`: a string is read back where no further quote follows it.
-/

namespace PlcAudit.Toml

open Text (hexValue?)

/-! ## Escapes -/

/-- What stands behind a backslash for a character: one letter, or its number in four digits. -/
inductive Escape : List Char → Char → Prop where
  | short {e c : Char} (h : shortEscape? e = some c) : Escape [e] c
  | number {c : Char} (h : c.toNat < 0x80) :
      Escape ['u', '0', '0', upperHexDigit (c.toNat / 16), upperHexDigit (c.toNat % 16)] c

theorem toNat_lt_of_not_isPlain {c : Char} (h : ¬ isPlain c = true) : c.toNat < 0x80 := by
  simp only [isPlain, Bool.or_eq_true, Bool.and_eq_true, decide_eq_true_eq, not_or] at h
  omega

/-- A character between double quotes is itself or an escape. -/
theorem escapedChar_cases (c : Char) :
    (escapedChar c = [c] ∧ isPlain c = true ∧ c ≠ '\\') ∨
      ∃ cs, escapedChar c = '\\' :: cs ∧ Escape cs c := by
  unfold escapedChar
  split_ifs with hb ht hf hr hslash hplain
  · exact Or.inr ⟨_, rfl, .short (by rw [hb]; rfl)⟩
  · exact Or.inr ⟨_, rfl, .short (by rw [ht]; rfl)⟩
  · exact Or.inr ⟨_, rfl, .short (by rw [hf]; rfl)⟩
  · exact Or.inr ⟨_, rfl, .short (by rw [hr]; rfl)⟩
  · exact Or.inr ⟨_, rfl, .short (by rw [hslash]; rfl)⟩
  · exact Or.inl ⟨rfl, hplain, hslash⟩
  · exact Or.inr ⟨_, rfl, .number (toNat_lt_of_not_isPlain hplain)⟩

/-- A reader that goes through escapes step by step. -/
def FollowsEscapes (read : Mode → List Char → List Char → Option (List Char × List Char)) : Prop :=
  ∀ mode acc c r, (mode = .escape ∨ ∃ left value, mode = .digits left value) →
    read mode acc (c :: r) =
      match escapeStep mode c with
      | some (x, mode) => read mode (push x acc) r
      | none => none

theorem followsEscapes_readBasic : FollowsEscapes readBasic := by
  rintro mode acc c r (rfl | ⟨left, value, rfl⟩) <;> rfl

theorem followsEscapes_readLongBasic : FollowsEscapes readLongBasic := by
  rintro mode acc c r (rfl | ⟨left, value, rfl⟩) <;> rfl

theorem hexValue?_upperHexDigit : ∀ d < 16, hexValue? (upperHexDigit d) = some d := by decide

theorem charOf?_toNat (c : Char) : charOf? c.toNat = some c := by
  have hvalid : c.toNat.isValidChar := c.valid
  rw [charOf?, if_pos hvalid, Char.ofNat_toNat]

section Reader

variable {reader : Mode → List Char → List Char → Option (List Char × List Char)}

theorem FollowsEscapes.read_digit (hread : FollowsEscapes reader) {d : Char} {v : Nat}
    (hd : hexValue? d = some v) (left value : Nat) (acc r : List Char) :
    reader (.digits (left + 2) value) acc (d :: r) =
      reader (.digits (left + 1) (value * 16 + v)) acc r := by
  rw [hread _ _ _ _ (Or.inr ⟨_, _, rfl⟩)]
  simp only [escapeStep, hd, Option.bind_eq_bind, Option.bind_some]
  rw [if_neg (by omega)]
  rfl

theorem FollowsEscapes.read_lastDigit (hread : FollowsEscapes reader) {c d : Char} {v value : Nat}
    (hd : hexValue? d = some v) (hc : value * 16 + v = c.toNat) (acc r : List Char) :
    reader (.digits 1 value) acc (d :: r) = reader (.plain 0) (c :: acc) r := by
  rw [hread _ _ _ _ (Or.inr ⟨_, _, rfl⟩)]
  simp only [escapeStep, hd, Option.bind_eq_bind, Option.bind_some, hc, charOf?_toNat]
  rfl

/-- **An escape is read as its character.** -/
theorem Escape.read (hread : FollowsEscapes reader) {cs : List Char} {c : Char} (h : Escape cs c)
    (acc r : List Char) : reader .escape acc (cs ++ r) = reader (.plain 0) (c :: acc) r := by
  cases h with
  | @short e c h =>
    have hu : e ≠ 'u' := by
      rintro rfl
      cases h
    have hU : e ≠ 'U' := by
      rintro rfl
      cases h
    rw [List.singleton_append, hread _ _ _ _ (Or.inl rfl)]
    simp only [escapeStep, if_neg hu, if_neg hU, h, Option.map_some]
    rfl
  | number h =>
    have hzero : hexValue? '0' = some 0 := rfl
    have hhigh := hexValue?_upperHexDigit (c.toNat / 16) (by omega)
    have hlow := hexValue?_upperHexDigit (c.toNat % 16) (by omega)
    simp only [List.cons_append, List.nil_append]
    rw [hread _ _ _ _ (Or.inl rfl)]
    change reader (.digits (2 + 2) 0) acc _ = _
    rw [hread.read_digit hzero, hread.read_digit hzero, hread.read_digit hhigh,
      hread.read_lastDigit (c := c) hlow (by omega)]

end Reader

/-! ## Strings on one line -/

theorem readBasic_basicChar (n : Nat) (acc : List Char) (c : Char) (r : List Char) :
    readBasic (.plain n) acc (basicChar c ++ r) = readBasic (.plain 0) (c :: acc) r := by
  have hescape : ∀ {cs : List Char}, Escape cs c →
      readBasic (.plain n) acc ('\\' :: cs ++ r) = readBasic (.plain 0) (c :: acc) r :=
    fun h => h.read followsEscapes_readBasic acc r
  unfold basicChar
  split_ifs with hquote hline
  · exact hescape (.short (by rw [hquote]; rfl))
  · exact hescape (.short (by rw [hline]; rfl))
  · rcases escapedChar_cases c with ⟨hc, hplain, hslash⟩ | ⟨cs, hc, h⟩
    · rw [hc, List.singleton_append, readBasic]
      rw [if_neg hquote, if_neg hslash, if_pos hplain]
    · rw [hc]
      exact hescape h

/-- **A string in escapes is read back.** -/
theorem readBasic_flatMap (n : Nat) (acc cs r : List Char) :
    readBasic (.plain n) acc (cs.flatMap basicChar ++ '"' :: r) = some (acc.reverse ++ cs, r) := by
  induction cs generalizing n acc with
  | nil =>
    rw [List.append_nil]
    rfl
  | cons c cs ih =>
    rw [List.flatMap_cons, List.append_assoc, readBasic_basicChar, ih, List.reverse_cons,
      ← List.append_cons]

/-- **A string between single quotes is read back.** -/
theorem readLiteral_append {cs : List Char} (hplain : ∀ c ∈ cs, isPlain c = true)
    (hquote : '\'' ∉ cs) (acc r : List Char) :
    readLiteral acc (cs ++ '\'' :: r) = some (acc.reverse ++ cs, r) := by
  induction cs generalizing acc with
  | nil =>
    rw [List.append_nil]
    rfl
  | cons c cs ih =>
    rw [List.forall_mem_cons] at hplain
    rw [List.mem_cons, not_or] at hquote
    rw [List.cons_append, readLiteral, if_neg (Ne.symm hquote.1), if_pos hplain.1,
      ih hplain.2 hquote.2, List.reverse_cons, ← List.append_cons]

/-! ## Quotes within tripled quotes -/

theorem closes_of_head?_ne {q : Char} {r : List Char} (hr : r.head? ≠ some q) (quotes : Nat) :
    closes q quotes (q :: q :: r) = some r :=
  if_pos ⟨rfl, rfl, fun h => hr h.1⟩

/-- **A quote of the text does not close it.**  Less than two quotes stand before it, and what is
left of the text does not begin with two more. -/
theorem closes_append_eq_none {q : Char} {quotes : Nat} (hquotes : quotes < 2) {cs : List Char}
    (hcs : ¬ [q, q] <+: cs) (r : List Char) :
    closes q quotes (cs ++ q :: q :: q :: r) = none := by
  match cs with
  | [] => exact if_neg fun h => h.2.2 ⟨rfl, hquotes⟩
  | [a] => exact if_neg fun h => h.2.2 ⟨rfl, hquotes⟩
  | a :: b :: cs =>
    refine if_neg fun h => hcs ?_
    rw [h.1, h.2.1]
    exact ⟨cs, rfl⟩

theorem hasTriple_eq_true_iff {q : Char} {cs : List Char} :
    hasTriple q cs = true ↔ [q, q, q] <:+: cs := by
  induction cs with
  | nil => simp [hasTriple]
  | cons a cs ih =>
    match cs with
    | [] => simp [hasTriple, List.infix_cons_iff]
    | [b] => simp [hasTriple, List.infix_cons_iff]
    | b :: c :: cs =>
      rw [hasTriple, Bool.or_eq_true, ih]
      have hthree : [q, q, q] <+: a :: b :: c :: cs ↔ a = q ∧ b = q ∧ c = q := by
        simp only [List.cons_prefix_cons, List.nil_prefix, and_true, eq_comm (a := q)]
      refine (or_congr_left ?_).trans List.infix_cons_iff.symm
      rw [hthree]
      simp only [Bool.and_eq_true, decide_eq_true_eq, and_assoc]

/-- A text in which no quote `q` is the third one in a row, after `quotes` of them. -/
def NoTriple (q : Char) (quotes : Nat) (cs : List Char) : Prop :=
  ¬ [q, q, q] <:+: List.replicate quotes q ++ cs

section NoTriple

variable {q : Char} {quotes : Nat} {cs : List Char}

/-- After two quotes the text does not go on with a third one. -/
theorem NoTriple.lt_two (h : NoTriple q quotes (q :: cs)) : quotes < 2 := by
  by_contra hquotes
  obtain ⟨n, rfl⟩ := Nat.exists_eq_add_of_le (Nat.le_of_not_lt hquotes)
  refine h ⟨List.replicate n q, cs, ?_⟩
  rw [Nat.add_comm, List.replicate_add]
  simp [List.replicate_succ]

/-- After a quote the text does not go on with two more. -/
theorem NoTriple.not_two_more (h : NoTriple q quotes (q :: cs)) : ¬ [q, q] <+: cs := by
  rintro ⟨ds, rfl⟩
  exact h ⟨List.replicate quotes q, ds, by simp⟩

/-- A quote of the text counts. -/
theorem NoTriple.succ (h : NoTriple q quotes (q :: cs)) : NoTriple q (quotes + 1) cs := by
  rwa [NoTriple, List.replicate_succ', List.append_assoc, List.singleton_append]

/-- Behind a character the count begins anew. -/
theorem NoTriple.tail {c : Char} (h : NoTriple q quotes (c :: cs)) : NoTriple q 0 cs := by
  rintro hcs
  refine h (hcs.trans ?_)
  exact (List.suffix_cons c cs).isInfix.trans (List.suffix_append _ _).isInfix

end NoTriple

/-! ## Strings over several lines -/

/-- **A text between tripled single quotes is read back.** -/
theorem readLongLiteral_append {quotes : Nat} {cs r : List Char}
    (hplain : ∀ c ∈ cs, isPlain c = true ∨ c = '\n') (hcs : NoTriple '\'' quotes cs)
    (hr : r.head? ≠ some '\'') (acc : List Char) :
    readLongLiteral quotes acc (cs ++ '\'' :: '\'' :: '\'' :: r) = some (acc.reverse ++ cs, r) := by
  induction cs generalizing quotes acc with
  | nil =>
    rw [List.nil_append, readLongLiteral, if_pos rfl, closes_of_head?_ne hr, List.append_nil]
  | cons c cs ih =>
    rw [List.forall_mem_cons] at hplain
    rw [List.cons_append, readLongLiteral]
    by_cases hc : c = '\''
    · subst hc
      rw [if_pos rfl, closes_append_eq_none hcs.lt_two hcs.not_two_more]
      dsimp only
      rw [ih hplain.2 hcs.succ, List.reverse_cons, ← List.append_cons]
    · have hreturn : ¬ (c = '\r' ∧ (cs ++ '\'' :: '\'' :: '\'' :: r).head? = some '\n') := by
        rintro ⟨rfl, -⟩
        rcases hplain.1 with h | h <;> cases h
      rw [if_neg hc, if_neg hreturn, if_pos (Or.symm hplain.1), ih hplain.2 hcs.tail,
        List.reverse_cons, ← List.append_cons]

/-- A character other than a quote, between tripled double quotes. -/
def lineChar (c : Char) : List Char := if c = '\n' then ['\n'] else escapedChar c

theorem longBasicChars_cons_of_ne {c : Char} (hc : c ≠ '"') (quotes : Nat) (cs : List Char) :
    longBasicChars quotes (c :: cs) = lineChar c ++ longBasicChars 0 cs := by
  rw [longBasicChars, if_neg hc, lineChar]
  split_ifs <;> rfl

/-- No other character is written with a quote in front. -/
theorem exists_lineChar_eq_cons {c : Char} (hc : c ≠ '"') :
    ∃ d ds, lineChar c = d :: ds ∧ d ≠ '"' := by
  unfold lineChar
  split_ifs with hline
  · exact ⟨_, _, rfl, by decide⟩
  · rcases escapedChar_cases c with ⟨h, -, -⟩ | ⟨cs, h, -⟩
    · exact ⟨_, _, h, hc⟩
    · exact ⟨_, _, h, by decide⟩

/-- A third quote in a row is escaped. -/
theorem not_prefix_longBasicChars_of_two_le {quotes : Nat} (hquotes : 2 ≤ quotes)
    (cs : List Char) : ¬ ['"'] <+: longBasicChars quotes cs := by
  cases cs with
  | nil => simp [longBasicChars]
  | cons c cs =>
    by_cases hc : c = '"'
    · rw [longBasicChars, if_pos hc, if_pos hquotes, List.cons_prefix_cons]
      exact fun h => absurd h.1 (by decide)
    · obtain ⟨d, ds, hds, hd⟩ := exists_lineChar_eq_cons hc
      rw [longBasicChars_cons_of_ne hc, hds, List.cons_append, List.cons_prefix_cons]
      exact fun h => hd h.1.symm

/-- After a quote the text is not written with two more. -/
theorem not_prefix_longBasicChars {quotes : Nat} (hquotes : 1 ≤ quotes) (cs : List Char) :
    ¬ ['"', '"'] <+: longBasicChars quotes cs := by
  cases cs with
  | nil => simp [longBasicChars]
  | cons c cs =>
    by_cases hc : c = '"'
    · rw [longBasicChars, if_pos hc]
      split_ifs with htwo
      · rw [List.cons_prefix_cons]
        exact fun h => absurd h.1 (by decide)
      · rw [List.cons_prefix_cons]
        exact fun h => not_prefix_longBasicChars_of_two_le (by omega) cs h.2
    · obtain ⟨d, ds, hds, hd⟩ := exists_lineChar_eq_cons hc
      rw [longBasicChars_cons_of_ne hc, hds, List.cons_append, List.cons_prefix_cons]
      exact fun h => hd h.1.symm

/-- The backslash of an escape does not join two lines. -/
theorem Escape.joinsLines_eq_false {cs : List Char} {c : Char} (h : Escape cs c) (r : List Char) :
    joinsLines (cs ++ r) = false := by
  cases h with
  | @short e c h =>
    have hne : ∀ d : Char, shortEscape? d = none → e ≠ d := by
      rintro d hd rfl
      rw [hd] at h
      cases h
    have hspace : ¬ isSpace e = true := by
      simp [isSpace, hne ' ' rfl, hne '\t' rfl]
    rw [joinsLines, List.singleton_append, List.dropWhile_cons_of_neg hspace]
    unfold startsNewline
    split
    · next heq => exact absurd (List.cons.inj heq).1 (hne _ rfl)
    · next heq => exact absurd (List.cons.inj heq).1 (hne _ rfl)
    · rfl
  | number h => rfl

theorem readLongBasic_escape {cs : List Char} {c : Char} (h : Escape cs c) (quotes : Nat)
    (acc r : List Char) :
    readLongBasic (.plain quotes) acc ('\\' :: (cs ++ r)) =
      readLongBasic (.plain 0) (c :: acc) r := by
  rw [readLongBasic, if_neg (by decide), if_pos rfl, h.joinsLines_eq_false, if_neg (by decide)]
  exact h.read followsEscapes_readLongBasic acc r

theorem readLongBasic_lineChar {c : Char} (hc : c ≠ '"') (quotes : Nat) (acc r : List Char) :
    readLongBasic (.plain quotes) acc (lineChar c ++ r) =
      readLongBasic (.plain 0) (c :: acc) r := by
  unfold lineChar
  split_ifs with hline
  · subst hline
    rfl
  · rcases escapedChar_cases c with ⟨h, hplain, hslash⟩ | ⟨cs, h, hcs⟩
    · have hreturn : ¬ (c = '\r' ∧ r.head? = some '\n') := by
        rintro ⟨rfl, -⟩
        cases hplain
      rw [h, List.singleton_append, readLongBasic, if_neg hc, if_neg hslash, if_neg hreturn,
        if_pos (Or.inr hplain)]
    · rw [h, List.cons_append]
      exact readLongBasic_escape hcs quotes acc r

/-- **A text between tripled double quotes is read back.** -/
theorem readLongBasic_append {r : List Char} (hr : r.head? ≠ some '"') (quotes : Nat)
    (acc cs : List Char) :
    readLongBasic (.plain quotes) acc (longBasicChars quotes cs ++ '"' :: '"' :: '"' :: r) =
      some (acc.reverse ++ cs, r) := by
  induction cs generalizing quotes acc with
  | nil =>
    rw [longBasicChars, List.nil_append, readLongBasic, if_pos rfl, closes_of_head?_ne hr,
      List.append_nil]
  | cons c cs ih =>
    by_cases hc : c = '"'
    · subst hc
      rw [longBasicChars, if_pos rfl]
      split_ifs with hquotes
      · have hescape : Escape ['"'] '"' := .short rfl
        change readLongBasic _ acc ('\\' :: (['"'] ++ (longBasicChars 0 cs ++ _))) = _
        rw [readLongBasic_escape hescape, ih, List.reverse_cons, ← List.append_cons]
      · have hcloses := closes_append_eq_none (Nat.lt_of_not_le hquotes)
          (not_prefix_longBasicChars (Nat.succ_pos quotes) cs) r
        rw [List.cons_append, readLongBasic, if_pos rfl, hcloses]
        dsimp only
        rw [ih, List.reverse_cons, ← List.append_cons]
    · rw [longBasicChars_cons_of_ne hc, List.append_assoc, readLongBasic_lineChar hc, ih,
        List.reverse_cons, ← List.append_cons]

/-! ## Strings of any style -/

/-- The texts that a style can hold.  With escapes, that is any text. -/
def Style.Holds : Style → List Char → Prop
  | .basic, _ => True
  | .literal, cs => (∀ c ∈ cs, isPlain c = true) ∧ '\'' ∉ cs
  | .longBasic, _ => True
  | .longLiteral, cs => (∀ c ∈ cs, isPlain c = true ∨ c = '\n') ∧ NoTriple '\'' 0 cs

theorem isPlain_or_eq_of_hasControl {cs : List Char} (h : (!hasControl cs) = true) :
    ∀ c ∈ cs, isPlain c = true ∨ c = '\n' := by
  intro c hc
  simp only [hasControl, Bool.not_eq_true', List.any_eq_false] at h
  have hline := h c hc
  simp only [ne_eq, decide_not, Bool.and_eq_true, Bool.not_eq_true', decide_eq_false_iff_not,
    not_and, not_not] at hline
  by_cases hplain : isPlain c = true
  · exact Or.inl hplain
  · exact Or.inr (hline (by simpa using hplain))

/-- **The style that is picked for a text can hold it.** -/
theorem holds_styleOf (cs : List Char) : (styleOf cs).Holds cs := by
  unfold styleOf
  split_ifs with hbasic hliteral hlong hlongLiteral hline
  · trivial
  · simp only [Bool.and_eq_true] at hliteral
    obtain ⟨⟨hcontrol, hquote⟩, hline⟩ := hliteral
    simp only [Bool.not_eq_true', List.contains_eq_mem, decide_eq_false_iff_not] at hquote hline
    refine ⟨fun c hc => (isPlain_or_eq_of_hasControl hcontrol c hc).resolve_right ?_, hquote⟩
    rintro rfl
    exact hline hc
  · trivial
  · simp only [Bool.and_eq_true, Bool.not_eq_true'] at hlongLiteral
    refine ⟨isPlain_or_eq_of_hasControl (by simpa using hlongLiteral.1), fun h => ?_⟩
    have htriple := hasTriple_eq_true_iff.mpr h
    rw [List.replicate_zero, List.nil_append, hlongLiteral.2] at htriple
    cases htriple
  · trivial
  · trivial

/-- A text behind which a string has ended: no quote follows. -/
def EndsString (r : List Char) : Prop := r.head? ≠ some '"' ∧ r.head? ≠ some '\''

/-- What does not begin with the end of a line is left as it is. -/
theorem dropNewline_cons {c : Char} (hc : c ≠ '\n' ∧ c ≠ '\r') (r : List Char) :
    dropNewline (c :: r) = c :: r := by
  unfold dropNewline
  split
  · next heq => exact absurd (List.cons.inj heq).1 hc.1
  · next heq => exact absurd (List.cons.inj heq).1 hc.2
  · rfl

/-- The line feed after tripled quotes is the one that was written there, or there is none. -/
theorem dropNewline_openingNewline {cs body : List Char}
    (h : '\n' ∉ cs → ∃ c r, body = c :: r ∧ c ≠ '\n' ∧ c ≠ '\r') :
    dropNewline (openingNewline cs ++ body) = body := by
  by_cases hline : '\n' ∈ cs
  · rw [openingNewline, if_pos (List.contains_iff_mem.mpr hline)]
    rfl
  · obtain ⟨c, r, rfl, hc⟩ := h hline
    rw [openingNewline, if_neg (fun h => hline (List.contains_iff_mem.mp h)), List.nil_append,
      dropNewline_cons hc]

theorem ne_newline_of_isPlain {c : Char} (h : isPlain c = true) : c ≠ '\n' ∧ c ≠ '\r' := by
  constructor <;> (rintro rfl; cases h)

/-- A text without line feeds between tripled double quotes does not begin with one. -/
theorem exists_longBasicChars_eq_cons {cs : List Char} (hcs : '\n' ∉ cs) (r : List Char) :
    ∃ d ds, longBasicChars 0 cs ++ '"' :: r = d :: ds ∧ d ≠ '\n' ∧ d ≠ '\r' := by
  cases cs with
  | nil => exact ⟨_, _, rfl, by decide⟩
  | cons c cs =>
    rw [List.mem_cons, not_or] at hcs
    by_cases hc : c = '"'
    · rw [longBasicChars, if_pos hc]
      exact ⟨_, _, rfl, by decide⟩
    · rw [longBasicChars_cons_of_ne hc, lineChar, if_neg (Ne.symm hcs.1)]
      rcases escapedChar_cases c with ⟨h, hplain, -⟩ | ⟨ds, h, -⟩
      · rw [h]
        exact ⟨_, _, rfl, ne_newline_of_isPlain hplain⟩
      · rw [h]
        exact ⟨_, _, rfl, by decide⟩

/-- A quote that two more do not follow opens a string on one line. -/
theorem readString_of_not_tripled {q : Char} {cs : List Char} (h : ¬ [q, q] <+: cs) :
    readString (q :: cs) = readShortString (q :: cs) := by
  unfold readString
  split
  · next heq =>
    obtain ⟨rfl, rfl⟩ := List.cons.inj heq
    exact absurd ⟨_, rfl⟩ h
  · next heq =>
    obtain ⟨rfl, rfl⟩ := List.cons.inj heq
    exact absurd ⟨_, rfl⟩ h
  · rfl

theorem not_prefix_of_cons {q c : Char} (h : c ≠ q) (cs : List Char) : ¬ [q, q] <+: c :: cs := by
  rw [List.cons_prefix_cons]
  exact fun hq => h hq.1.symm

theorem not_prefix_of_head? {q : Char} {r : List Char} (h : r.head? ≠ some q) :
    ¬ [q, q] <+: q :: r := by
  rintro ⟨s, hs⟩
  rw [List.cons_append, List.cons.injEq] at hs
  exact h (by rw [← hs.2]; rfl)

/-- A string in escapes does not go on with two more quotes behind its first one. -/
theorem not_prefix_basic {r : List Char} (hr : r.head? ≠ some '"') (cs : List Char) :
    ¬ ['"', '"'] <+: cs.flatMap basicChar ++ '"' :: r := by
  cases cs with
  | nil => exact not_prefix_of_head? hr
  | cons c cs =>
    rw [List.flatMap_cons, basicChar]
    split_ifs with hquote hline
    · exact not_prefix_of_cons (by decide) _
    · exact not_prefix_of_cons (by decide) _
    · rcases escapedChar_cases c with ⟨h, -, -⟩ | ⟨ds, h, -⟩
      · rw [h]
        exact not_prefix_of_cons hquote _
      · rw [h]
        exact not_prefix_of_cons (by decide) _

/-- A text is read back from every style that can hold it. -/
theorem readString_writeStyled {style : Style} {cs r : List Char} (h : style.Holds cs)
    (hr : EndsString r) : readString (writeStyled style cs ++ r) = some (cs, r) := by
  cases style with
  | basic =>
    simp only [writeStyled, List.cons_append, List.append_assoc, List.nil_append]
    rw [readString_of_not_tripled (not_prefix_basic hr.1 cs)]
    exact readBasic_flatMap 0 [] cs r
  | literal =>
    have hsingle : ¬ ['\'', '\''] <+: cs ++ '\'' :: r := by
      cases cs with
      | nil => exact not_prefix_of_head? hr.2
      | cons c cs =>
        refine not_prefix_of_cons ?_ _
        rintro rfl
        exact h.2 List.mem_cons_self
    simp only [writeStyled, List.cons_append, List.append_assoc, List.nil_append]
    rw [readString_of_not_tripled hsingle]
    exact readLiteral_append h.1 h.2 [] r
  | longBasic =>
    simp only [writeStyled, List.cons_append, List.append_assoc, List.nil_append, readString]
    rw [dropNewline_openingNewline fun hcs => exists_longBasicChars_eq_cons hcs _]
    exact readLongBasic_append hr.1 0 [] cs
  | longLiteral =>
    simp only [writeStyled, List.cons_append, List.append_assoc, List.nil_append, readString]
    rw [dropNewline_openingNewline]
    · exact readLongLiteral_append h.1 h.2 hr.2 []
    · intro hcs
      cases cs with
      | nil => exact ⟨_, _, rfl, by decide⟩
      | cons c cs =>
        have hline : c ≠ '\n' := fun hc => hcs (hc ▸ List.mem_cons_self)
        exact ⟨_, _, rfl,
          ne_newline_of_isPlain ((h.1 c List.mem_cons_self).resolve_right hline)⟩

/-- **A string is read back,** whatever it holds. -/
theorem readString_writeString {r : List Char} (hr : EndsString r) (s : String) :
    readString (writeString s ++ r) = some (s.toList, r) :=
  readString_writeStyled (holds_styleOf s.toList) hr

end PlcAudit.Toml
