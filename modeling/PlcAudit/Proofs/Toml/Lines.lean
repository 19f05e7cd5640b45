import Mathlib.Data.List.Forall2
import PlcAudit.Proofs.Toml.Strings
import PlcAudit.Toml.Reader

/-!
# Lines that are read back

A text of settings is a sequence of lines, each of which is blank, opens a table, or gives a key its
value.  A value ends with its line, so all that has to be known of its text is that it is read as
the value in front of a line feed (`Spells`); and all that has to be known of a line is which
statements it adds to those of the lines behind it (`SpellsLine`).

The bounds of the reader count its calls.  A value takes at most as many as it has characters, and
one more; and of lines each takes one.

* `spells_string`, `spells_boolean`, `spells_strings`: the values that are written.
* `spellsLine_blank`, `spellsLine_header`, `spellsLine_assign`: the lines that are written.
* `readLines_flatten`: a text made of lines.
-/

namespace PlcAudit.Toml

/-! ## Values -/

/-- A text that is read as a value at the end of a line. -/
structure Spells (cs : List Char) (v : Value) : Prop where
  head : ∃ c r, cs = c :: r ∧ isSpace c = false
  reads : ∀ fuel r, cs.length < fuel →
    readValue fuel (limit - 1) (cs ++ '\n' :: r) = some (v, '\n' :: r)

theorem endsString_cons {c : Char} (hc : c ≠ '"' ∧ c ≠ '\'') (r : List Char) :
    EndsString (c :: r) :=
  ⟨fun h => hc.1 (Option.some.inj h), fun h => hc.2 (Option.some.inj h)⟩

/-- A string begins with a quote. -/
theorem exists_writeString_eq_cons (s : String) :
    ∃ q cs, writeString s = q :: cs ∧ (q = '"' ∨ q = '\'') := by
  unfold writeString
  cases styleOf s.toList with
  | basic => exact ⟨_, _, rfl, Or.inl rfl⟩
  | literal => exact ⟨_, _, rfl, Or.inr rfl⟩
  | longBasic => exact ⟨_, _, rfl, Or.inl rfl⟩
  | longLiteral => exact ⟨_, _, rfl, Or.inr rfl⟩

theorem readValue_writeString {r : List Char} (hr : EndsString r) (fuel depth : Nat) (s : String) :
    readValue (fuel + 1) depth (writeString s ++ r) = some (.string s, r) := by
  have hread := readString_writeString hr s
  obtain ⟨q, cs, hcs, hq⟩ := exists_writeString_eq_cons s
  rw [hcs, List.cons_append] at hread ⊢
  rw [readValue]
  simp only [if_pos hq, hread, Option.map_some, String.ofList_toList]

theorem spells_string (s : String) : Spells (writeString s) (.string s) where
  head := by
    obtain ⟨q, cs, hcs, hq⟩ := exists_writeString_eq_cons s
    refine ⟨q, cs, hcs, ?_⟩
    rcases hq with rfl | rfl <;> rfl
  reads fuel r hfuel := by
    obtain ⟨fuel, rfl⟩ := Nat.exists_eq_add_one_of_ne_zero (n := fuel) (by omega)
    exact readValue_writeString (endsString_cons (by decide) r) fuel _ s

theorem spells_boolean (b : Bool) : Spells (writeBoolean b) (.boolean b) where
  head := by cases b <;> exact ⟨_, _, rfl, rfl⟩
  reads fuel r hfuel := by
    obtain ⟨fuel, rfl⟩ := Nat.exists_eq_add_one_of_ne_zero (n := fuel) (by omega)
    cases b <;> rfl

/-! ## Lists of strings -/

/-- A string on a line of its own. -/
def itemLine (s : String) : List Char := "    ".toList ++ writeString s ++ [',', '\n']

theorem skipGap_writeString (s : String) (r : List Char) :
    skipGap false (writeString s ++ r) = writeString s ++ r := by
  obtain ⟨q, cs, hcs, hq⟩ := exists_writeString_eq_cons s
  rw [hcs]
  rcases hq with rfl | rfl <;> rfl

theorem skipGap_itemLine (s : String) (r : List Char) :
    skipGap false ('\n' :: (itemLine s ++ r)) = writeString s ++ ',' :: '\n' :: r := by
  simp only [itemLine, List.append_assoc]
  exact skipGap_writeString s _

/-- **Strings on lines of their own are read one after the other,** up to the closing bracket. -/
theorem readItems_itemLines (depth : Nat) (r : List Char) (s : String) (ss : List String)
    (acc : List Value) (fuel : Nat) (hfuel : ss.length + 1 < fuel) :
    readItems fuel depth acc
        (writeString s ++ ',' :: '\n' :: (ss.flatMap itemLine ++ ']' :: r)) =
      some (acc.reverse ++ (s :: ss).map .string, r) := by
  induction ss generalizing s acc fuel with
  | nil =>
    obtain ⟨fuel, rfl⟩ : ∃ n, fuel = n + 2 := ⟨fuel - 2, by omega⟩
    rw [readItems,
      readValue_writeString (endsString_cons (by decide) _) fuel depth s]
    change some ((Value.string s :: acc).reverse, r) = _
    rw [List.reverse_cons]
    rfl
  | cons t ss ih =>
    rw [List.length_cons] at hfuel
    obtain ⟨fuel, rfl⟩ : ∃ n, fuel = n + 2 := ⟨fuel - 2, by omega⟩
    have hrest := ih t (.string s :: acc) (fuel + 1) (by omega)
    rw [readItems,
      readValue_writeString (endsString_cons (by decide) _) fuel depth s]
    have hcomma : ∀ cs, skipGap false (',' :: cs) = ',' :: cs := fun _ => rfl
    simp only [hcomma, List.flatMap_cons, List.append_assoc, skipGap_itemLine]
    -- the next string does not begin with a closing bracket
    obtain ⟨q, cs, hcs, hq⟩ := exists_writeString_eq_cons t
    rw [hcs] at hrest ⊢
    rw [List.cons_append] at hrest ⊢
    split
    · next h => rcases hq with rfl | rfl <;> cases (List.cons.inj h).1
    · rw [hrest, List.reverse_cons, List.append_assoc]
      rfl

/-- A list of strings, as an array. -/
def arrayOf (ss : List String) : Value := .array (ss.map .string)

theorem readValue_array {r r' : List Char} {c : Char} {depth : Nat} (hdepth : 0 < depth)
    (hr : skipGap false r = c :: r') (hc : c ≠ ']') (fuel : Nat) :
    readValue (fuel + 1) depth ('[' :: r) =
      (readItems fuel (depth - 1) [] (c :: r')).map fun (vs, r) => (.array vs, r) := by
  rw [readValue]
  simp only [hr]
  rw [if_neg (by decide), if_pos trivial, if_neg (Nat.ne_of_gt hdepth)]
  split
  · next h => exact absurd (List.cons.inj h).1 hc
  · rfl

theorem length_le_length_flatMap_itemLine (ss : List String) :
    ss.length ≤ (ss.flatMap itemLine).length := by
  induction ss with
  | nil => exact Nat.le_refl 0
  | cons s ss ih =>
    rw [List.flatMap_cons, List.length_append, List.length_cons]
    have hline : 0 < (itemLine s).length := by simp [itemLine]
    omega

theorem spells_oneString (s : String) : Spells ('[' :: (writeString s ++ [']'])) (arrayOf [s]) where
  head := ⟨_, _, rfl, rfl⟩
  reads fuel r hfuel := by
    obtain ⟨q, cs, hcs, hq⟩ := exists_writeString_eq_cons s
    have hgap := skipGap_writeString s (']' :: '\n' :: r)
    have hvalue : ∀ fuel depth, readValue (fuel + 1) depth (writeString s ++ ']' :: '\n' :: r) =
        some (.string s, ']' :: '\n' :: r) :=
      fun fuel depth => readValue_writeString (endsString_cons (by decide) _) fuel depth s
    rw [hcs] at hfuel hgap hvalue ⊢
    simp only [List.length_cons, List.length_append] at hfuel
    obtain ⟨fuel, rfl⟩ : ∃ n, fuel = n + 3 := ⟨fuel - 3, by omega⟩
    simp only [List.cons_append, List.append_assoc, List.nil_append] at hgap hvalue ⊢
    rw [readValue_array (by decide) hgap (by rcases hq with rfl | rfl <;> decide), readItems,
      hvalue]
    rfl

theorem spells_itemLines (s : String) (ss : List String) :
    Spells ('[' :: '\n' :: (itemLine s ++ (ss.flatMap itemLine ++ [']']))) (arrayOf (s :: ss)) where
  head := ⟨_, _, rfl, rfl⟩
  reads fuel r hfuel := by
    obtain ⟨q, cs, hcs, hq⟩ := exists_writeString_eq_cons s
    have hgap := skipGap_itemLine s (ss.flatMap itemLine ++ ']' :: '\n' :: r)
    have hitems := readItems_itemLines (limit - 1 - 1) ('\n' :: r) s ss []
    have hlength := length_le_length_flatMap_itemLine ss
    simp only [List.length_cons, List.length_append] at hfuel
    obtain ⟨fuel, rfl⟩ : ∃ n, fuel = n + 1 := ⟨fuel - 1, by omega⟩
    rw [hcs] at hgap hitems
    simp only [List.cons_append, List.append_assoc, List.nil_append] at hgap hitems ⊢
    rw [readValue_array (by decide) hgap (by rcases hq with rfl | rfl <;> decide),
      hitems fuel (by omega)]
    rfl

/-- **A list of strings is read back,** whether it stands on one line or over several. -/
theorem spells_strings (ss : List String) : Spells (writeStrings ss) (arrayOf ss) := by
  match ss with
  | [] =>
    refine ⟨⟨_, _, rfl, rfl⟩, fun fuel r hfuel => ?_⟩
    obtain ⟨fuel, rfl⟩ : ∃ n, fuel = n + 1 := ⟨fuel - 1, by omega⟩
    rfl
  | [s] => exact spells_oneString s
  | s :: t :: ss =>
    have htext : writeStrings (s :: t :: ss) =
        '[' :: '\n' :: (itemLine s ++ ((t :: ss).flatMap itemLine ++ [']'])) := by
      rw [← List.append_assoc, ← List.flatMap_cons]
      rfl
    rw [htext]
    exact spells_itemLines s (t :: ss)

/-! ## Keys -/

/-- A key that needs no quotes. -/
def IsBare (key : String) : Prop := key.toList ≠ [] ∧ ∀ c ∈ key.toList, isBareChar c = true

instance (key : String) : Decidable (IsBare key) :=
  decidable_of_iff (key.toList ≠ [] ∧ key.toList.all isBareChar = true) (by
    rw [List.all_eq_true, IsBare])

/-- A key without quotes begins with a character of its own kind. -/
theorem IsBare.exists_eq_cons {key : String} (h : IsBare key) :
    ∃ k ks, key.toList = k :: ks ∧ isBareChar k = true := by
  obtain ⟨k, ks, hks⟩ := List.exists_cons_of_ne_nil h.1
  exact ⟨k, ks, hks, h.2 k (hks ▸ List.mem_cons_self)⟩

theorem ne_of_isBareChar {c d : Char} (hc : isBareChar c = true) (hd : isBareChar d = false) :
    c ≠ d := by
  rintro rfl
  rw [hd] at hc
  cases hc

theorem isSpace_of_isBareChar {c : Char} (h : isBareChar c = true) : isSpace c = false := by
  simp only [isSpace, Bool.or_eq_false_iff, decide_eq_false_iff_not]
  exact ⟨ne_of_isBareChar h rfl, ne_of_isBareChar h rfl⟩

theorem skipSpace_cons {c : Char} (hc : isSpace c = false) (r : List Char) :
    skipSpace (c :: r) = c :: r := List.dropWhile_cons_of_neg (by simp [hc])

/-- A key without quotes ends where another character stands. -/
theorem readPart_of_isBare {key : String} (h : IsBare key) {c : Char} (hc : isBareChar c = false)
    (r : List Char) : readPart (key.toList ++ c :: r) = some (key, c :: r) := by
  obtain ⟨k, ks, hks, hk⟩ := h.exists_eq_cons
  have htake : (key.toList ++ c :: r).takeWhile isBareChar = key.toList := by
    rw [List.takeWhile_append_of_pos h.2, List.takeWhile_cons_of_neg (by simp [hc]),
      List.append_nil]
  have hdrop : (key.toList ++ c :: r).dropWhile isBareChar = c :: r := by
    rw [List.dropWhile_append_of_pos h.2, List.dropWhile_cons_of_neg (by simp [hc])]
  unfold readPart
  split
  · next heq =>
    rw [hks] at heq
    exact absurd (List.cons.inj heq).1 (ne_of_isBareChar hk rfl)
  · next heq =>
    rw [hks] at heq
    exact absurd (List.cons.inj heq).1 (ne_of_isBareChar hk rfl)
  · split
    · next hnil => exact absurd (htake.symm.trans hnil) h.1
    · rw [htake, hdrop, String.ofList_toList]

/-- A key of one part is read up to what follows it, blanks apart. -/
theorem readKey_of_isBare {key : String} (h : IsBare key) {c d : Char} {r r' : List Char}
    (hc : isBareChar c = false) (hd : skipSpace (c :: r) = d :: r') (hdot : d ≠ '.') :
    readKey (key.toList ++ c :: r) = some ([key], d :: r') := by
  have hskip : skipSpace (key.toList ++ c :: r) = key.toList ++ c :: r := by
    obtain ⟨k, ks, hks, hk⟩ := h.exists_eq_cons
    rw [hks, List.cons_append]
    exact skipSpace_cons (isSpace_of_isBareChar hk) _
  change readParts (78 + 1) (key.toList ++ c :: r) = _
  rw [readParts, hskip, readPart_of_isBare h hc]
  simp only [Option.bind_eq_bind, Option.bind_some, hd]
  split
  · next heq => exact absurd (List.cons.inj heq).1 hdot
  · rfl

/-! ## Lines -/

/-- A text of whole lines that adds statements to those of the lines behind it. -/
def SpellsLine (valueFuel : Nat) (cs : List Char) (ss : List Statement) : Prop :=
  ∀ fuel r, readLines valueFuel (fuel + 1) (cs ++ r) = (readLines valueFuel fuel r).map (ss ++ ·)

variable {valueFuel : Nat}

theorem spellsLine_blank : SpellsLine valueFuel ['\n'] [] := by
  intro fuel r
  have hid : ∀ o : Option (List Statement), o.map ([] ++ ·) = o := fun o => Option.map_id_apply
  rw [hid]
  rfl

/-- A line that is not blank and no comment holds one statement. -/
theorem readLines_statement {c : Char} {cs r : List Char} {s : Statement}
    (hc : isSpace c = false ∧ c ≠ '\n' ∧ c ≠ '\r' ∧ c ≠ '#')
    (h : readStatement valueFuel (c :: cs) = some (s, '\n' :: r)) (fuel : Nat) :
    readLines valueFuel (fuel + 1) (c :: cs) =
      (readLines valueFuel fuel r).map ([s] ++ ·) := by
  rw [readLines, skipSpace_cons hc.1]
  split
  · next heq => cases heq
  · next heq => exact absurd (List.cons.inj heq).1 hc.2.1
  · next heq => exact absurd (List.cons.inj heq).1 hc.2.2.1
  · next heq => exact absurd (List.cons.inj heq).1 hc.2.2.2
  · rw [h]
    change (readLines valueFuel fuel r).bind _ = _
    cases readLines valueFuel fuel r <;> rfl

/-- The header of a table. -/
theorem spellsLine_header {key : String} (h : IsBare key) :
    SpellsLine valueFuel ('[' :: (key.toList ++ [']', '\n'])) [.header [key]] := by
  intro fuel r
  have hkey : readKey (key.toList ++ ']' :: '\n' :: r) = some ([key], ']' :: '\n' :: r) :=
    readKey_of_isBare h rfl rfl (by decide)
  simp only [List.cons_append, List.append_assoc, List.nil_append]
  refine readLines_statement (by decide) ?_ fuel
  unfold readStatement
  split
  · next heq =>
    -- a second bracket is no part of a key without quotes
    obtain ⟨k, ks, hks, hk⟩ := h.exists_eq_cons
    rw [hks] at heq
    exact absurd (List.cons.inj (List.cons.inj heq).2).1 (ne_of_isBareChar hk rfl)
  · next heq =>
    rw [← (List.cons.inj heq).2, hkey]
    rfl
  · next _ hne => exact (hne _ rfl).elim

/-- A key and its value. -/
theorem spellsLine_assign {key : String} (h : IsBare key) {cs : List Char} {v : Value}
    (hv : Spells cs v) (hfuel : cs.length < valueFuel) :
    SpellsLine valueFuel (key.toList ++ ' ' :: '=' :: ' ' :: (cs ++ ['\n'])) [.assign [key] v] := by
  intro fuel r
  have hkey : readKey (key.toList ++ ' ' :: '=' :: ' ' :: (cs ++ '\n' :: r)) =
      some ([key], '=' :: ' ' :: (cs ++ '\n' :: r)) := readKey_of_isBare h rfl rfl (by decide)
  have hgap : skipSpace (' ' :: (cs ++ '\n' :: r)) = cs ++ '\n' :: r := by
    obtain ⟨c, cs', rfl, hc⟩ := hv.head
    exact skipSpace_cons hc _
  simp only [List.cons_append, List.append_assoc, List.nil_append]
  obtain ⟨k, ks, hks, hk⟩ := h.exists_eq_cons
  have hne : ∀ d : Char, isBareChar d = false → k ≠ d := fun _ => ne_of_isBareChar hk
  rw [hks] at hkey ⊢
  rw [List.cons_append] at hkey ⊢
  refine readLines_statement
    ⟨isSpace_of_isBareChar hk, hne _ rfl, hne _ rfl, hne _ rfl⟩ ?_ fuel
  unfold readStatement
  split
  · next heq => exact absurd (List.cons.inj heq).1 (hne _ rfl)
  · next heq => exact absurd (List.cons.inj heq).1 (hne _ rfl)
  · rw [hkey]
    simp only [Option.bind_eq_bind, Option.bind_some, hgap, hv.reads _ _ hfuel]
    rfl

/-- **The lines of a text are read one after the other.** -/
theorem readLines_flatten {css : List (List Char)} {sss : List (List Statement)}
    (h : List.Forall₂ (SpellsLine valueFuel) css sss) (fuel : Nat) (hfuel : css.length < fuel) :
    readLines valueFuel fuel css.flatten = some sss.flatten := by
  induction h generalizing fuel with
  | nil =>
    obtain ⟨fuel, rfl⟩ : ∃ n, fuel = n + 1 := ⟨fuel - 1, by omega⟩
    rfl
  | cons hline _ ih =>
    rw [List.length_cons] at hfuel
    obtain ⟨fuel, rfl⟩ : ∃ n, fuel = n + 1 := ⟨fuel - 1, by omega⟩
    rw [List.flatten_cons, hline, ih fuel (by omega)]
    rfl

end PlcAudit.Toml
