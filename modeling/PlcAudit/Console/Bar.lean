/-!
# Bars

A count is shown as a bar, in proportion to the greatest count of the table.

* `cells`: how many cells a bar has, computed in 64-bit words.
* `bar`: the bar.
-/

namespace PlcAudit.Console

/-- The quotient of two words, rounded up. -/
def divCeil (a b : UInt64) : UInt64 := if a % b = 0 then a / b else a / b + 1

/-- The number of cells of a bar for `count` when `max` fills `width` cells; at least one for a
count that is not zero.  The width is at least one: a bar without a cell would have its limits, one
and `width`, out of order, and there is no number of cells between them. -/
def cells (count max width : UInt64) : UInt64 :=
  if count = 0 ∨ max = 0 then 0
  else
    let n := divCeil (count * width) max
    if n < 1 then 1 else if width < n then width else n

/-- A bar of filled cells, for a width of at least one. -/
def bar (count max width : UInt64) : List Char := List.replicate (cells count max width).toNat '█'

/-- A word in the singular for one thing and in the plural otherwise. -/
def pluralize (word : String) (count : Nat) : String := if count = 1 then word else word ++ "s"

end PlcAudit.Console
