import Mathlib.Data.List.Forall2
import PlcAudit.Proofs.Json.Tokens

/-!
# Texts that are read back

A value is written on one line or over several, and either text is read back as the value.  The two
layouts differ in white space alone, so they are not treated apart: what is proved of a list of
items or members is proved for any white space in front of each and behind the last.

Of a text that is part of a longer one three things are used, whatever its layout (`Spells`).  It
begins with a character that is no white space and does not close a list; it is read as its value,
with what follows it left over; and the calls of the reader are as many as its characters at most,
so that the bound of the reader never counts.

Doubles are left out, since their shortest text is not in every case read as the same double.

* `Value.Readable`: the values that are read back, by the number of brackets that may be open.
* `Spells`: a text that is read as a value wherever it stands.
* `spells_array`, `spells_object`: the two kinds of brackets, in any layout.
* `spells_write`, `spells_writeIndented`: the layouts that are in use.
* `read_write`, `read_writeIndented`: whole texts.
-/

namespace PlcAudit.Json

/-! ## Values that are read back -/

/-- A value without doubles, whose numbers have 64 bits, and in which at most `depth` brackets are
open at once. -/
inductive Value.Readable : Nat → Value → Prop where
  | null {depth : Nat} : Readable depth .null
  | bool {depth : Nat} (b : Bool) : Readable depth (.bool b)
  | int {depth : Nat} {n : Int} (h : IsWhole n) : Readable depth (.number (.int n))
  | string {depth : Nat} (s : String) : Readable depth (.string s)
  | array {depth : Nat} {vs : List Value} (h : ∀ v ∈ vs, Readable depth v) :
      Readable (depth + 1) (.array vs)
  | object {depth : Nat} {ms : List (String × Value)} (h : ∀ m ∈ ms, Readable depth m.2) :
      Readable (depth + 1) (.object ms)

/-! ## White space -/

/-- A text of white space. -/
def IsSpaces (ws : List Char) : Prop := ∀ c ∈ ws, isSpace c = true

theorem isSpaces_nil : IsSpaces [] := fun _ h => nomatch h

theorem isSpaces_blank : IsSpaces [' '] := fun _ hc => by
  rw [List.mem_singleton.mp hc]
  rfl

theorem isSpaces_newline (depth : Nat) : IsSpaces (newline depth) := by
  intro c hc
  rcases List.mem_cons.mp hc with rfl | hc
  · rfl
  · rw [List.eq_of_mem_replicate hc]
    rfl

theorem skipSpace_append {ws : List Char} (hws : IsSpaces ws) (cs : List Char) :
    skipSpace (ws ++ cs) = skipSpace cs := List.dropWhile_append_of_pos hws

theorem skipSpace_cons {c : Char} (hc : isSpace c = false) (cs : List Char) :
    skipSpace (c :: cs) = c :: cs := List.dropWhile_cons_of_neg (by simp [hc])

theorem skipSpace_of_isSpaces {ws : List Char} (hws : IsSpaces ws) : skipSpace ws = [] := by
  rw [← List.append_nil ws, skipSpace_append hws]
  rfl

/-- White space in front of a value is passed over. -/
theorem readValue_spaces {ws : List Char} (hws : IsSpaces ws) (fuel depth : Nat)
    (cs : List Char) : readValue (fuel + 1) depth (ws ++ cs) = readValue (fuel + 1) depth cs := by
  rw [readValue, readValue, skipSpace_append hws]

/-- A character that is no part of a number, behind any white space, ends one. -/
theorem endsNumber_spaces {ws : List Char} (hws : IsSpaces ws) {r : List Char}
    (hr : EndsNumber r) : EndsNumber (ws ++ r) := by
  cases ws with
  | nil => exact hr
  | cons c ws =>
    have hc : isSpace c = true := hws c List.mem_cons_self
    simp only [isSpace, Bool.or_eq_true, decide_eq_true_eq] at hc
    rcases hc with ((rfl | rfl) | rfl) | rfl <;> exact endsNumber_cons (by decide)

/-! ## Texts of values -/

/-- A text that is read as a value wherever it stands, with at most `depth` brackets open. -/
structure Spells (depth : Nat) (cs : List Char) (v : Value) : Prop where
  head : ∃ c r, cs = c :: r ∧ isSpace c = false ∧ c ≠ ']'
  reads : ∀ fuel r, cs.length ≤ fuel → EndsNumber r →
    readValue fuel depth (cs ++ r) = .ok (v, r)

/-- A text of a value is found behind white space. -/
theorem Spells.skipSpace_eq {depth : Nat} {cs : List Char} {v : Value} (h : Spells depth cs v)
    (r : List Char) : skipSpace (cs ++ r) = cs ++ r := by
  obtain ⟨c, cs', rfl, hc, -⟩ := h.head
  exact skipSpace_cons hc _

/-- A text that begins so is read as a value if it is whenever a call is left for it. -/
theorem Spells.of_cons {depth : Nat} {c : Char} {cs : List Char} {v : Value}
    (hc : isSpace c = false ∧ c ≠ ']')
    (h : ∀ fuel r, cs.length ≤ fuel → EndsNumber r →
      readValue (fuel + 1) depth (c :: (cs ++ r)) = .ok (v, r)) : Spells depth (c :: cs) v where
  head := ⟨c, cs, rfl, hc⟩
  reads fuel r hfuel hr := by
    obtain ⟨fuel, rfl⟩ := Nat.exists_eq_add_one_of_ne_zero (n := fuel) (by
      rintro rfl
      cases hfuel)
    exact h fuel r (Nat.le_of_succ_le_succ hfuel) hr

theorem spells_null (depth : Nat) : Spells depth "null".toList .null :=
  .of_cons (by decide) fun _ _ _ _ => by
    rw [readValue]
    rfl

theorem spells_bool (depth : Nat) (b : Bool) : Spells depth (writeBool b) (.bool b) := by
  cases b <;> exact .of_cons (by decide) fun _ _ _ _ => by
    rw [readValue]
    rfl

theorem spells_string (depth : Nat) (s : String) : Spells depth (writeString s) (.string s) := by
  refine .of_cons (by decide) fun fuel r _ _ => ?_
  rw [readValue, skipSpace_cons (by decide)]
  simp only [if_true, List.append_assoc, List.singleton_append, readString_escaped, Except.map,
    List.reverse_nil, List.nil_append, String.ofList_toList]

/-- A number begins with a digit or a minus sign. -/
theorem exists_writeNumber_eq_cons (n : Int) :
    ∃ c cs, writeNumber (.int n) = c :: cs ∧ (c = '-' ∨ c.isDigit = true) := by
  obtain ⟨c, cs, hcs, hdigit, -⟩ := exists_toDigits_eq_cons n.natAbs
  rw [writeNumber_int, hcs]
  by_cases hn : n < 0
  · exact ⟨'-', c :: cs, by rw [if_pos hn]; rfl, Or.inl rfl⟩
  · exact ⟨c, cs, by rw [if_neg hn]; rfl, Or.inr hdigit⟩

theorem spells_int (depth : Nat) {n : Int} (hn : IsWhole n) :
    Spells depth (writeNumber (.int n)) (.number (.int n)) := by
  obtain ⟨c, cs, hcs, hc⟩ := exists_writeNumber_eq_cons n
  -- none of the characters that the reader looks for first begins a number
  have hne : ∀ d : Char, d ≠ '-' ∧ d.isDigit = false → c ≠ d := by
    rintro d ⟨hminus, hdigit⟩ rfl
    rcases hc with rfl | hc
    · exact hminus rfl
    · rw [hdigit] at hc
      cases hc
  have hspace : isSpace c = false := by
    simp only [isSpace, Bool.or_eq_false_iff, decide_eq_false_iff_not]
    exact ⟨⟨⟨hne _ (by decide), hne _ (by decide)⟩, hne _ (by decide)⟩, hne _ (by decide)⟩
  rw [hcs]
  refine .of_cons ⟨hspace, hne _ (by decide)⟩ fun fuel r _ hr => ?_
  have hread := readNumber_int hn hr
  rw [hcs, List.cons_append] at hread
  rw [readValue, skipSpace_cons hspace]
  simp only [if_neg (hne '"' (by decide)), if_neg (hne '[' (by decide)),
    if_neg (hne '\x7b' (by decide)), if_neg (hne 't' (by decide)), if_neg (hne 'f' (by decide)),
    if_neg (hne 'n' (by decide)), if_pos hc, hread]
  rfl

/-! ## Lists -/

/-- Texts with commas between them, and `pre` in front of each. -/
def commaSeparated (pre : List Char) : List (List Char) → List Char
  | [] => []
  | [cs] => pre ++ cs
  | cs :: ds :: css => pre ++ cs ++ ',' :: commaSeparated pre (ds :: css)

section Lists

variable {pre post : List Char} {depth : Nat}

/-- The items that follow one are found behind its comma. -/
theorem skipSpace_commaSeparated (hpre : IsSpaces pre) (cs : List Char) (css : List (List Char))
    {c : Char} {cs' : List Char} (hcs : cs = c :: cs') (hc : isSpace c = false) (r : List Char) :
    ∃ r', skipSpace (commaSeparated pre (cs :: css) ++ r) = c :: r' := by
  subst hcs
  cases css with
  | nil =>
    rw [commaSeparated, List.append_assoc, skipSpace_append hpre, List.cons_append,
      skipSpace_cons hc]
    exact ⟨_, rfl⟩
  | cons ds css =>
    rw [commaSeparated, List.append_assoc, List.append_assoc, skipSpace_append hpre,
      List.cons_append, skipSpace_cons hc]
    exact ⟨_, rfl⟩

/-- **The items of a list are read one after the other,** up to the closing bracket. -/
theorem readItems_commaSeparated (hpre : IsSpaces pre) (hpost : IsSpaces post)
    {cs : List Char} {css : List (List Char)} {v : Value} {vs : List Value}
    (hv : Spells depth cs v) (hvs : List.Forall₂ (Spells depth) css vs) (acc : List Value)
    (r : List Char) (fuel : Nat) (hfuel : (commaSeparated pre (cs :: css)).length < fuel) :
    readItems fuel depth acc (skipSpace (commaSeparated pre (cs :: css) ++ (post ++ ']' :: r))) =
      .ok (acc.reverse ++ v :: vs, r) := by
  obtain ⟨fuel, rfl⟩ := Nat.exists_eq_add_one_of_ne_zero (n := fuel) (by omega)
  induction hvs generalizing cs v acc fuel with
  | nil =>
    rw [commaSeparated, List.length_append] at hfuel
    rw [commaSeparated, List.append_assoc, skipSpace_append hpre, hv.skipSpace_eq, readItems,
      hv.reads fuel _ (by omega) (endsNumber_spaces hpost (endsNumber_cons (by decide)))]
    simp only [skipSpace_append hpost, skipSpace_cons (c := ']') (by decide), if_true,
      List.reverse_cons]
  | @cons ds w css ws hw hws ih =>
    rw [commaSeparated, List.length_append, List.length_append, List.length_cons] at hfuel
    rw [commaSeparated, List.append_assoc, List.append_assoc, List.cons_append,
      skipSpace_append hpre, hv.skipSpace_eq, readItems,
      hv.reads fuel _ (by omega) (endsNumber_cons (by decide))]
    -- the next item does not begin with a closing bracket
    obtain ⟨c, ds', hds, hc, hbracket⟩ := hw.head
    obtain ⟨r', hr'⟩ := skipSpace_commaSeparated hpre ds css hds hc (post ++ ']' :: r)
    obtain ⟨fuel, rfl⟩ := Nat.exists_eq_add_one_of_ne_zero (n := fuel) (by omega)
    have hrest := ih hw (v :: acc) fuel (by omega)
    rw [List.reverse_cons, List.append_assoc, List.singleton_append, hr'] at hrest
    simp only [skipSpace_cons (c := ',') (by decide), hr']
    rw [if_neg (by decide), if_pos trivial]
    split
    · next h => exact absurd (List.cons.inj h).1 hbracket
    · exact hrest

/-- **A list is read back,** in any layout. -/
theorem spells_array (hpre : IsSpaces pre) (hpost : IsSpaces post) {css : List (List Char)}
    {vs : List Value} (h : List.Forall₂ (Spells depth) css vs) (hne : css ≠ []) :
    Spells (depth + 1) ('[' :: (commaSeparated pre css ++ (post ++ [']']))) (.array vs) := by
  cases h with
  | nil => exact absurd rfl hne
  | @cons cs v css vs hv hvs =>
    refine .of_cons (by decide) fun fuel r hfuel _ => ?_
    rw [List.length_append, List.length_append, List.length_singleton] at hfuel
    have hitems := readItems_commaSeparated hpre hpost hv hvs [] r fuel (by omega)
    obtain ⟨c, cs', hcs, hc, hbracket⟩ := hv.head
    obtain ⟨r', hr'⟩ := skipSpace_commaSeparated hpre cs css hcs hc (post ++ ']' :: r)
    rw [readValue, skipSpace_cons (by decide)]
    simp only [List.append_assoc, List.singleton_append, hr'] at hitems ⊢
    rw [if_neg (by decide), if_pos trivial, if_neg (Nat.succ_ne_zero depth)]
    split
    · next h => cases h
    · next h => exact absurd (List.cons.inj h).1 hbracket
    · rw [Nat.add_sub_cancel, hitems]
      rfl

theorem spells_emptyArray (depth : Nat) : Spells (depth + 1) ['[', ']'] (.array []) :=
  .of_cons (by decide) fun _ _ _ _ => by
    rw [readValue]
    rfl

/-! ## Objects -/

/-- A text of a member, with white space behind its colon. -/
def SpellsMember (gap : List Char) (depth : Nat) (cs : List Char) (m : String × Value) : Prop :=
  ∃ ds, cs = writeString m.1 ++ ':' :: (gap ++ ds) ∧ Spells depth ds m.2

theorem SpellsMember.head {gap cs : List Char} {m : String × Value}
    (h : SpellsMember gap depth cs m) : ∃ cs', cs = '"' :: cs' := by
  obtain ⟨ds, rfl, -⟩ := h
  exact ⟨_, rfl⟩

variable {gap : List Char}

/-- What is read behind a member: the closing brace, or a comma and the members that follow. -/
def readMemberEnd (fuel depth : Nat) (acc : List (String × Value)) (cs : List Char) :
    Reading (List (String × Value)) :=
  match skipSpace cs with
  | [] => .error (.atEnd .endInObject)
  | c :: r =>
    if c = '\x7d' then .ok (acc.reverse, r)
    else if c = ',' then
      match skipSpace r with
      | '\x7d' :: r => .error (.within .trailingComma ('\x7d' :: r))
      | r => readMembers fuel depth acc r
    else .error (.within .expectedObjectCommaOrEnd (c :: r))

/-- One member is read up to what follows it. -/
theorem readMembers_cons (hgap : IsSpaces gap) {cs : List Char} {m : String × Value}
    (hm : SpellsMember gap depth cs m) (acc : List (String × Value)) {r : List Char}
    (hr : EndsNumber r) {fuel : Nat} (hfuel : cs.length ≤ fuel) :
    readMembers (fuel + 1) depth acc (cs ++ r) = readMemberEnd fuel depth (m :: acc) r := by
  obtain ⟨ds, rfl, hds⟩ := hm
  obtain ⟨key, v⟩ := m
  simp only [writeString, List.length_append, List.length_cons] at hfuel
  obtain ⟨fuel, rfl⟩ := Nat.exists_eq_add_one_of_ne_zero (n := fuel) (by omega)
  have hvalue : readValue (fuel + 1) depth (gap ++ (ds ++ r)) = .ok (v, r) := by
    rw [readValue_spaces hgap]
    exact hds.reads _ r (by omega) hr
  simp only [writeString, List.cons_append, List.append_assoc, List.nil_append]
  rw [readMembers, if_neg (by decide), readString_escaped]
  simp only [skipSpace_cons (c := ':') (by decide), ne_eq, not_true_eq_false, if_false, hvalue,
    List.reverse_nil, List.nil_append, String.ofList_toList]
  rfl

/-- **The members of an object are read one after the other,** up to the closing brace. -/
theorem readMembers_commaSeparated (hpre : IsSpaces pre) (hpost : IsSpaces post)
    (hgap : IsSpaces gap) {cs : List Char} {css : List (List Char)} {m : String × Value}
    {ms : List (String × Value)} (hm : SpellsMember gap depth cs m)
    (hms : List.Forall₂ (SpellsMember gap depth) css ms) (acc : List (String × Value))
    (r : List Char) (fuel : Nat) (hfuel : (commaSeparated pre (cs :: css)).length < fuel) :
    readMembers fuel depth acc
        (skipSpace (commaSeparated pre (cs :: css) ++ (post ++ '\x7d' :: r))) =
      .ok (acc.reverse ++ m :: ms, r) := by
  have hskip : ∀ {cs : List Char} {m : String × Value}, SpellsMember gap depth cs m →
      ∀ r, skipSpace (cs ++ r) = cs ++ r := by
    intro cs m h r
    obtain ⟨cs', rfl⟩ := h.head
    exact skipSpace_cons (by decide) _
  obtain ⟨fuel, rfl⟩ := Nat.exists_eq_add_one_of_ne_zero (n := fuel) (by omega)
  induction hms generalizing cs m acc fuel with
  | nil =>
    rw [commaSeparated, List.length_append] at hfuel
    rw [commaSeparated, List.append_assoc, skipSpace_append hpre, hskip hm,
      readMembers_cons hgap hm acc (endsNumber_spaces hpost (endsNumber_cons (by decide)))
        (by omega)]
    simp only [readMemberEnd, skipSpace_append hpost, skipSpace_cons (c := '\x7d') (by decide),
      if_true, List.reverse_cons]
  | @cons ds n css ns hn hns ih =>
    rw [commaSeparated, List.length_append, List.length_append, List.length_cons] at hfuel
    rw [commaSeparated, List.append_assoc, List.append_assoc, List.cons_append,
      skipSpace_append hpre, hskip hm,
      readMembers_cons hgap hm acc (endsNumber_cons (by decide)) (by omega)]
    -- the next member begins with a quote
    obtain ⟨ds', hds⟩ := hn.head
    obtain ⟨r', hr'⟩ := skipSpace_commaSeparated hpre ds css hds (by decide) (post ++ '\x7d' :: r)
    obtain ⟨fuel, rfl⟩ := Nat.exists_eq_add_one_of_ne_zero (n := fuel) (by omega)
    have hrest := ih hn (m :: acc) fuel (by omega)
    rw [List.reverse_cons, List.append_assoc, List.singleton_append, hr'] at hrest
    simp only [readMemberEnd, skipSpace_cons (c := ',') (by decide), hr']
    rw [if_neg (by decide), if_pos trivial]
    exact hrest

/-- **An object is read back,** in any layout. -/
theorem spells_object (hpre : IsSpaces pre) (hpost : IsSpaces post) (hgap : IsSpaces gap)
    {css : List (List Char)} {ms : List (String × Value)}
    (h : List.Forall₂ (SpellsMember gap depth) css ms) (hne : css ≠ []) :
    Spells (depth + 1) ('\x7b' :: (commaSeparated pre css ++ (post ++ ['\x7d']))) (.object ms) := by
  cases h with
  | nil => exact absurd rfl hne
  | @cons cs m css ms hm hms =>
    refine .of_cons (by decide) fun fuel r hfuel _ => ?_
    rw [List.length_append, List.length_append, List.length_singleton] at hfuel
    have hmembers := readMembers_commaSeparated hpre hpost hgap hm hms [] r fuel (by omega)
    obtain ⟨cs', hcs⟩ := hm.head
    obtain ⟨r', hr'⟩ := skipSpace_commaSeparated hpre cs css hcs (by decide) (post ++ '\x7d' :: r)
    rw [readValue, skipSpace_cons (by decide)]
    simp only [List.append_assoc, List.singleton_append, hr'] at hmembers ⊢
    rw [if_neg (by decide), if_neg (by decide), if_pos trivial, if_neg (Nat.succ_ne_zero depth),
      Nat.add_sub_cancel]
    change (readMembers fuel depth [] ('"' :: r')).map _ = _
    rw [hmembers]
    rfl

theorem spells_emptyObject (depth : Nat) : Spells (depth + 1) ['\x7b', '\x7d'] (.object []) :=
  .of_cons (by decide) fun _ _ _ _ => by
    rw [readValue]
    rfl

end Lists

/-! ## The layouts in use -/

theorem writeItems_eq (vs : List Value) : writeItems vs = commaSeparated [] (vs.map write) := by
  induction vs with
  | nil => rfl
  | cons v vs ih =>
    cases vs with
    | nil => rfl
    | cons w vs =>
      rw [writeItems, ih]
      · rfl
      · rintro ⟨⟩

theorem writeMembers_eq (ms : List (String × Value)) :
    writeMembers ms = commaSeparated [] (ms.map fun m => writeString m.1 ++ ':' :: write m.2) := by
  induction ms with
  | nil => rfl
  | cons m ms ih =>
    cases ms with
    | nil => rfl
    | cons n ms =>
      obtain ⟨key, v⟩ := m
      rw [writeMembers, ih]
      · simp only [List.map_cons, commaSeparated, List.nil_append, List.append_assoc,
          List.cons_append]
      · rintro ⟨⟩

theorem writeIndentedItems_eq (d : Nat) (vs : List Value) :
    writeIndentedItems d vs = commaSeparated (newline d) (vs.map (writeIndented d)) := by
  induction vs with
  | nil => rfl
  | cons v vs ih =>
    cases vs with
    | nil => rfl
    | cons w vs =>
      rw [writeIndentedItems, ih]
      · rfl
      · rintro ⟨⟩

theorem writeIndentedMembers_eq (d : Nat) (ms : List (String × Value)) :
    writeIndentedMembers d ms = commaSeparated (newline d)
      (ms.map fun m => writeString m.1 ++ ':' :: ([' '] ++ writeIndented d m.2)) := by
  induction ms with
  | nil => rfl
  | cons m ms ih =>
    obtain ⟨key, v⟩ := m
    cases ms with
    | nil => simp only [writeIndentedMembers, List.map_cons, List.map_nil, commaSeparated,
        List.append_assoc, List.cons_append, List.nil_append]
    | cons n ms =>
      rw [writeIndentedMembers, ih]
      · simp only [List.map_cons, commaSeparated, List.nil_append, List.append_assoc,
          List.cons_append]
      · rintro ⟨⟩

/-- **A value on one line is read back** wherever it stands. -/
theorem spells_write {depth : Nat} {v : Value} (h : v.Readable depth) :
    Spells depth (write v) v := by
  induction h with
  | null => exact spells_null _
  | bool b => exact spells_bool _ b
  | int hn => exact spells_int _ hn
  | string s => exact spells_string _ s
  | @array depth vs _ ih =>
    cases vs with
    | nil => exact spells_emptyArray depth
    | cons v vs =>
      rw [write, writeItems_eq, ← List.nil_append [']']]
      refine spells_array isSpaces_nil isSpaces_nil ?_ (by simp)
      exact List.forall₂_map_left_iff.mpr (List.forall₂_same.mpr ih)
  | @object depth ms _ ih =>
    cases ms with
    | nil => exact spells_emptyObject depth
    | cons m ms =>
      rw [write, writeMembers_eq, ← List.nil_append ['\x7d']]
      refine spells_object isSpaces_nil isSpaces_nil isSpaces_nil ?_ (by simp)
      exact List.forall₂_map_left_iff.mpr (List.forall₂_same.mpr fun m hm => ⟨_, rfl, ih m hm⟩)

/-- **A value over several lines is read back** wherever it stands. -/
theorem spells_writeIndented {depth : Nat} {v : Value} (h : v.Readable depth) (d : Nat) :
    Spells depth (writeIndented d v) v := by
  induction h generalizing d with
  | null => exact spells_null _
  | bool b => exact spells_bool _ b
  | int hn => exact spells_int _ hn
  | string s => exact spells_string _ s
  | @array depth vs _ ih =>
    cases vs with
    | nil => exact spells_emptyArray depth
    | cons v vs =>
      rw [writeIndented, writeIndentedItems_eq, List.append_assoc]
      refine spells_array (isSpaces_newline _) (isSpaces_newline _) ?_ (by simp)
      exact List.forall₂_map_left_iff.mpr (List.forall₂_same.mpr fun v hv => ih v hv _)
  | @object depth ms _ ih =>
    cases ms with
    | nil => exact spells_emptyObject depth
    | cons m ms =>
      rw [writeIndented, writeIndentedMembers_eq, List.append_assoc]
      refine spells_object (isSpaces_newline _) (isSpaces_newline _) isSpaces_blank ?_ (by simp)
      exact List.forall₂_map_left_iff.mpr (List.forall₂_same.mpr fun m hm => ⟨_, rfl, ih m hm _⟩)

/-! ## Whole texts -/

/-- The text of a value is read as the value, with any white space behind it. -/
theorem read_of_spells {cs post : List Char} {v : Value} (h : Spells maxDepth cs v)
    (hpost : IsSpaces post) : read (cs ++ post) = .ok v := by
  have hread : readValue (2 * (cs ++ post).length + 2) maxDepth (cs ++ post) = .ok (v, post) := by
    refine h.reads _ post ?_ ?_
    · rw [List.length_append]
      omega
    · rw [← List.append_nil post]
      exact endsNumber_spaces hpost endsNumber_nil
  rw [read, hread]
  dsimp only
  rw [skipSpace_of_isSpaces hpost]

/-- **What is written on one line is read back.** -/
theorem read_write {v : Value} (h : v.Readable maxDepth) : read (write v) = .ok v := by
  rw [← List.append_nil (write v)]
  exact read_of_spells (spells_write h) isSpaces_nil

/-- So is a text that happens to be what is written of a value. -/
theorem read_toList_of_eq_write {text : String} {v : Value} (htext : text.toList = write v)
    (hv : v.Readable maxDepth) : read text.toList = .ok v := by
  rw [htext]
  exact read_write hv

/-- **What is written over several lines is read back.** -/
theorem read_writeIndented {v : Value} (h : v.Readable maxDepth) (d : Nat) :
    read (writeIndented d v) = .ok v := by
  rw [← List.append_nil (writeIndented d v)]
  exact read_of_spells (spells_writeIndented h d) isSpaces_nil

end PlcAudit.Json
