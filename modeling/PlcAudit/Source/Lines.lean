/-!
# The lines of a source

A line ends with a line feed, with a carriage return, or with the two in this order; the last line
may end with the text.  Lines are counted from one.

* `splitLines`: the lines of a list, without their terminators, over any alphabet that has the two.
* `linesOf`: the lines of a text.
* `lineAt?`: the line with a given number.
-/

namespace PlcAudit.Source

/-- A symbol in front of the first line. -/
def consLine (a : α) : List (List α) → List (List α)
  | [] => [[a]]
  | l :: ls => (a :: l) :: ls

/-- The lines of a list with line feed `lf` and carriage return `cr`.  After a carriage return a
line feed belongs to the terminator that has just ended a line. -/
def splitLinesFrom [DecidableEq α] (lf cr : α) (afterReturn : Bool) : List α → List (List α)
  | [] => []
  | a :: r =>
    if a = lf then
      if afterReturn then splitLinesFrom lf cr false r else [] :: splitLinesFrom lf cr false r
    else if a = cr then [] :: splitLinesFrom lf cr true r
    else consLine a (splitLinesFrom lf cr false r)

/-- The lines of a list. -/
def splitLines [DecidableEq α] (lf cr : α) (as : List α) : List (List α) :=
  splitLinesFrom lf cr false as

/-- The lines of a text, as characters. -/
def charLines (cs : List Char) : List (List Char) := splitLines '\n' '\r' cs

/-- The lines of a text. -/
def linesOf (s : String) : List String := (charLines s.toList).map String.ofList

/-- The line with the given number, if there is one. -/
def lineAt? (s : String) (n : Option UInt32) : Option String := do
  let n ← n
  if n = 0 then none else (linesOf s)[n.toNat - 1]?

@[simp] theorem splitLines_nil [DecidableEq α] (lf cr : α) : splitLines lf cr [] = [] := rfl

@[simp] theorem lineAt?_none (s : String) : lineAt? s none = none := rfl

@[simp] theorem lineAt?_zero (s : String) : lineAt? s (some 0) = none := rfl

end PlcAudit.Source
