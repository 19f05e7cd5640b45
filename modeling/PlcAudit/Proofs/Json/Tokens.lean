import Mathlib.Data.List.Basic
import PlcAudit.Json.Reader
import PlcAudit.Json.Writer

/-!
# Tokens that are read back

A string is written with escapes for what may not stand in it, and a whole number in decimal
digits.  Both are read back whatever they are.  For a string that is all there is to say, since its
closing quote ends it.  A number has no end of its own: it goes on as long as digits, a point or an
exponent follow, so that it is read back where none of them does (`EndsNumber`).

* `readString_escaped`: a string, character by character.
* `EndsNumber`: what may follow a number.
* `readLiteral_int`, `readNumber_int`: a whole number of 64 bits.
-/

namespace PlcAudit.Json

open Text (hexValue? natOfDigits)

/-! ## Strings -/

theorem hexValue?_digitChar : ∀ d < 16, hexValue? (Nat.digitChar d) = some d := by decide

/-- The four digits of an escape spell the number they were written for. -/
theorem hexValue4?_padded {n : Nat} (hn : n < 0x100) :
    hexValue4? '0' '0' (Nat.digitChar (n / 16)) (Nat.digitChar (n % 16)) = some n := by
  have hhigh : hexValue? (Nat.digitChar (n / 16)) = some (n / 16) :=
    hexValue?_digitChar _ (by omega)
  have hlow : hexValue? (Nat.digitChar (n % 16)) = some (n % 16) :=
    hexValue?_digitChar _ (by omega)
  have hzero : hexValue? '0' = some 0 := rfl
  simp only [hexValue4?, hzero, hhigh, hlow, Option.bind_eq_bind, Option.bind_some, Option.pure_def,
    Option.some.injEq]
  omega

/-! The four ways in which a string goes on. -/

theorem readString_quote (acc r : List Char) :
    readString acc ('"' :: r) = .ok (acc.reverse, r) := by
  rw [readString.eq_def]
  rfl

theorem readString_plain {c : Char} (hquote : c ≠ '"') (hslash : c ≠ '\\')
    (hcontrol : ¬ c.toNat < 0x20) (acc r : List Char) :
    readString acc (c :: r) = readString (c :: acc) r := by
  rw [readString.eq_def acc (c :: r)]
  simp only [if_neg hquote, if_neg hslash, if_neg hcontrol]

theorem readString_short {e x : Char} (hu : e ≠ 'u') (hx : shortEscape? e = some x)
    (acc r : List Char) : readString acc ('\\' :: e :: r) = readString (x :: acc) r := by
  rw [readString.eq_def acc ('\\' :: e :: r)]
  simp only [if_neg hu, hx]
  rfl

theorem readString_number {a b c d : Char} {n : Nat} (hn : hexValue4? a b c d = some n)
    (hlow : isLowSurrogate n = false) (hhigh : isHighSurrogate n = false) (acc r : List Char) :
    readString acc ('\\' :: 'u' :: a :: b :: c :: d :: r) = readString (.ofNat n :: acc) r := by
  rw [readString.eq_def acc ('\\' :: 'u' :: a :: b :: c :: d :: r)]
  simp only [hn, hlow, hhigh]
  rfl

/-- A control character is written by its number, which is that of no surrogate. -/
theorem readString_control {c : Char} (hc : c.toNat < 0x20) (acc r : List Char) :
    readString acc ('\\' :: 'u' :: hexPadded c.toNat ++ r) = readString (c :: acc) r := by
  have hlow : isLowSurrogate c.toNat = false := by
    simp only [isLowSurrogate, Bool.and_eq_false_iff, decide_eq_false_iff_not]
    omega
  have hhigh : isHighSurrogate c.toNat = false := by
    simp only [isHighSurrogate, Bool.and_eq_false_iff, decide_eq_false_iff_not]
    omega
  have hread := readString_number (hexValue4?_padded (by omega)) hlow hhigh acc r
  rwa [Char.ofNat_toNat] at hread

/-- **A character of a string is read back.** -/
theorem readString_escapedChar (acc : List Char) (c : Char) (r : List Char) :
    readString acc (escapedChar c ++ r) = readString (c :: acc) r := by
  unfold escapedChar
  split_ifs with hquote hslash hb hf hn hr ht hcontrol
  · rw [hquote]
    exact readString_short (by decide) rfl acc r
  · rw [hslash]
    exact readString_short (by decide) rfl acc r
  · rw [hb]
    exact readString_short (by decide) rfl acc r
  · rw [hf]
    exact readString_short (by decide) rfl acc r
  · rw [hn]
    exact readString_short (by decide) rfl acc r
  · rw [hr]
    exact readString_short (by decide) rfl acc r
  · rw [ht]
    exact readString_short (by decide) rfl acc r
  · exact readString_control hcontrol acc r
  · exact readString_plain hquote hslash hcontrol acc r

/-- **A string is read back,** up to its closing quote. -/
theorem readString_escaped (acc cs r : List Char) :
    readString acc (cs.flatMap escapedChar ++ '"' :: r) = .ok (acc.reverse ++ cs, r) := by
  induction cs generalizing acc with
  | nil => rw [List.flatMap_nil, List.nil_append, readString_quote, List.append_nil]
  | cons c cs ih =>
    rw [List.flatMap_cons, List.append_assoc, readString_escapedChar, ih, List.reverse_cons,
      List.append_assoc, List.singleton_append]

/-! ## Numbers -/

/-- A text that does not continue the number in front of it. -/
def EndsNumber (r : List Char) : Prop :=
  ∀ c, r.head? = some c → c.isDigit = false ∧ c ≠ '.' ∧ c ≠ 'e' ∧ c ≠ 'E'

theorem endsNumber_nil : EndsNumber [] := fun _ h => nomatch h

theorem endsNumber_cons {c : Char} {r : List Char}
    (hc : c.isDigit = false ∧ c ≠ '.' ∧ c ≠ 'e' ∧ c ≠ 'E') : EndsNumber (c :: r) := by
  intro c' h
  obtain rfl := Option.some.inj h
  exact hc

/-- Digits end where the number does. -/
theorem spanDigits_append {ds r : List Char} (hds : ∀ c ∈ ds, c.isDigit = true)
    (hr : EndsNumber r) : spanDigits (ds ++ r) = (ds, r) := by
  rw [spanDigits, List.takeWhile_append_of_pos hds, List.dropWhile_append_of_pos hds]
  cases r with
  | nil => rw [List.takeWhile_nil, List.dropWhile_nil, List.append_nil]
  | cons c r =>
    have hc : ¬ c.isDigit = true := by simp [(hr c rfl).1]
    rw [List.takeWhile_cons_of_neg hc, List.dropWhile_cons_of_neg hc, List.append_nil]

theorem isDigit_of_mem_toDigits {n : Nat} {c : Char} (h : c ∈ Nat.toDigits 10 n) :
    c.isDigit = true := Nat.isDigit_of_mem_toDigits (by decide) (by decide) h

/-- The digits of a positive number do not begin with a zero. -/
theorem head?_toDigits_ne_zero {n : Nat} (hn : 0 < n) :
    (Nat.toDigits 10 n).head? ≠ some '0' := by
  have hdigit : ∀ m < 10, 0 < m → [Nat.digitChar m].head? ≠ some '0' := by decide
  induction n using Nat.strongRecOn with
  | ind n ih =>
    rw [Nat.toDigits_eq_if (by decide)]
    split
    · next hlt => exact hdigit n hlt hn
    · next hle =>
      rw [List.head?_append_of_ne_nil _ Nat.toDigits_ne_nil]
      exact ih (n / 10) (by omega) (by omega)

/-- The digits of a number begin with a digit, which is no zero if the number is none. -/
theorem exists_toDigits_eq_cons (n : Nat) :
    ∃ c cs, Nat.toDigits 10 n = c :: cs ∧ c.isDigit = true ∧ (0 < n → c ≠ '0') := by
  obtain ⟨c, cs, hcs⟩ := List.exists_cons_of_ne_nil (Nat.toDigits_ne_nil (n := n) (b := 10))
  refine ⟨c, cs, hcs, isDigit_of_mem_toDigits (hcs ▸ List.mem_cons_self), ?_⟩
  rintro hn rfl
  exact head?_toDigits_ne_zero hn (by rw [hcs, List.head?_cons])

/-- The digits of a number are read as its whole part. -/
theorem readWhole_toDigits (n : Nat) {r : List Char} (hr : EndsNumber r) :
    readWhole (Nat.toDigits 10 n ++ r) = .ok (Nat.toDigits 10 n, r) := by
  rcases Nat.eq_zero_or_pos n with rfl | hn
  · rw [Nat.toDigits_zero, List.singleton_append, readWhole.eq_def]
    cases r with
    | nil => rfl
    | cons c r => simp [(hr c rfl).1]
  · obtain ⟨c, cs, hcs, hdigit, hzero⟩ := exists_toDigits_eq_cons n
    have hspan := spanDigits_append (fun c => isDigit_of_mem_toDigits (n := n)) hr
    rw [hcs] at hspan ⊢
    rw [List.cons_append] at hspan ⊢
    rw [readWhole.eq_def]
    simp only [if_neg (hzero hn), if_pos hdigit, hspan]

theorem readFraction_of_endsNumber {r : List Char} (hr : EndsNumber r) :
    readFraction r = .ok (none, r) := by
  unfold readFraction
  split
  · exact absurd rfl (hr '.' rfl).2.1
  · rfl

theorem readExponent_of_endsNumber {r : List Char} (hr : EndsNumber r) :
    readExponent r = .ok (none, r) := by
  cases r with
  | nil => rfl
  | cons c r =>
    obtain ⟨-, -, hlower, hupper⟩ := hr c rfl
    rw [readExponent, if_neg (by simp [hlower, hupper])]

/-- The whole number that a value may hold: one of 64 bits, signed or unsigned. -/
def IsWhole (n : Int) : Prop := Int64.minValue.toInt ≤ n ∧ n < UInt64.size

instance (n : Int) : Decidable (IsWhole n) := inferInstanceAs (Decidable (_ ∧ _))

/-- A whole number is written as its digits, with a sign if it is negative. -/
theorem writeNumber_int (n : Int) :
    writeNumber (.int n) = (if n < 0 then ['-'] else []) ++ Nat.toDigits 10 n.natAbs := by
  rw [writeNumber, Int.toString_eq_repr, Int.repr_eq_if]
  by_cases hn : n < 0
  · rw [if_neg (by omega), if_pos hn, String.toList_append, Nat.toList_repr,
      show (-n).toNat = n.natAbs by omega]
    rfl
  · rw [if_pos (by omega), if_neg hn, Nat.toList_repr, show n.toNat = n.natAbs by omega]
    rfl

/-- A literal after its sign. -/
def readUnsigned (negative : Bool) (r : List Char) : Except Refusal (Literal × List Char) := do
  let (whole, r) ← readWhole r
  let (fraction, r) ← readFraction r
  let (exponent, r) ← readExponent r
  return (⟨negative, whole, fraction, exponent⟩, r)

theorem readLiteral_minus (r : List Char) : readLiteral ('-' :: r) = readUnsigned true r := rfl

theorem readLiteral_of_ne_minus {c : Char} (hc : c ≠ '-') (r : List Char) :
    readLiteral (c :: r) = readUnsigned false (c :: r) := by
  unfold readLiteral
  split
  next negative r' hsign =>
    split at hsign
    · next h => exact absurd (List.cons.inj h).1 hc
    · cases hsign
      rfl

theorem readUnsigned_toDigits (negative : Bool) (n : Nat) {r : List Char} (hr : EndsNumber r) :
    readUnsigned negative (Nat.toDigits 10 n ++ r) =
      .ok (⟨negative, Nat.toDigits 10 n, none, none⟩, r) := by
  rw [readUnsigned, readWhole_toDigits n hr]
  simp only [bind, Except.bind, readFraction_of_endsNumber hr, readExponent_of_endsNumber hr]
  rfl

/-- **A whole number is read as it was spelled.** -/
theorem readLiteral_int (n : Int) {r : List Char} (hr : EndsNumber r) :
    readLiteral (writeNumber (.int n) ++ r) =
      .ok (⟨decide (n < 0), Nat.toDigits 10 n.natAbs, none, none⟩, r) := by
  rw [writeNumber_int]
  by_cases hn : n < 0
  · rw [if_pos hn, decide_eq_true hn, List.singleton_append, List.cons_append, readLiteral_minus,
      readUnsigned_toDigits true _ hr]
  · obtain ⟨c, cs, hcs, hdigit, -⟩ := exists_toDigits_eq_cons n.natAbs
    have hminus : c ≠ '-' := by
      rintro rfl
      cases hdigit
    rw [if_neg hn, decide_eq_false hn, List.nil_append, ← readUnsigned_toDigits false _ hr, hcs,
      List.cons_append, readLiteral_of_ne_minus hminus]

theorem natOfDigits_toDigits (n : Nat) : natOfDigits (Nat.toDigits 10 n) = n :=
  Nat.ofDigitChars_toDigits (by decide) (by decide)

/-- The digits of a whole number of 64 bits, with its sign, have it for their value. -/
theorem number_eq_int {n : Int} (hn : IsWhole n) :
    (⟨decide (n < 0), Nat.toDigits 10 n.natAbs, none, none⟩ : Literal).number =
      .ok (.int n) := by
  obtain ⟨hlow, hhigh⟩ := hn
  simp only [Literal.number, natOfDigits_toDigits, Option.isNone_none, true_and]
  by_cases hneg : n < 0
  · simp only [decide_eq_true hneg, if_true]
    rw [if_pos ⟨by omega, by omega⟩, show -(n.natAbs : Int) = n by omega]
  · simp only [decide_eq_false hneg, Bool.false_eq_true, if_false]
    rw [if_pos (by omega), show (n.natAbs : Int) = n by omega]

/-- **A whole number of 64 bits is read back.** -/
theorem readNumber_int {n : Int} (hn : IsWhole n) {r : List Char} (hr : EndsNumber r) :
    readNumber (writeNumber (.int n) ++ r) = .ok (.int n, r) := by
  rw [readNumber, readLiteral_int n hr]
  simp only [bind, Except.bind, number_eq_int hn]
  rfl

end PlcAudit.Json
