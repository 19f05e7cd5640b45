/-!
# Blank characters

The characters that Unicode gives the property `White_Space`, and the trimming that goes with them.
A policy that consists of such characters counts as no policy, a program name that does names no
program, and the diagnostics of a failed engine are trimmed of them.

* `isBlank`: the class itself.
* `trimChars`: a text without the blanks at its two ends.
* `isBlankText`: a text of blanks only, the empty text included.
-/

namespace PlcAudit.Text

/-- The characters with the property `White_Space`: the five controls from tab to carriage return,
the blank, the next-line control, and the separators. -/
def isBlank (c : Char) : Bool :=
  let n := c.toNat
  (9 ≤ n && n ≤ 13) || n == 0x20 || n == 0x85 || n == 0xa0 || n == 0x1680 ||
    (0x2000 ≤ n && n ≤ 0x200a) || n == 0x2028 || n == 0x2029 || n == 0x202f || n == 0x205f ||
    n == 0x3000

/-- Every blank of the ASCII class is a blank here. -/
theorem isBlank_of_isWhitespace {c : Char} (h : c.isWhitespace = true) : isBlank c = true := by
  simp only [Char.isWhitespace, Bool.or_eq_true, decide_eq_true_eq] at h
  rcases h with ((rfl | rfl) | rfl) | rfl <;> decide

/-- A list of characters without the blanks at its two ends. -/
def trimChars (cs : List Char) : List Char :=
  ((cs.dropWhile isBlank).reverse.dropWhile isBlank).reverse

/-- A text without the blanks at its two ends. -/
def trim (s : String) : String := String.ofList (trimChars s.toList)

/-- A text that holds nothing but blanks. -/
def isBlankText (s : String) : Bool := s.toList.all isBlank

@[simp] theorem isBlankText_empty : isBlankText "" = true := rfl

end PlcAudit.Text
