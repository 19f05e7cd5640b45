/-!
# Double-precision numbers, exactly

A fractional number in an engine's output is read as a double.  Here a double is its sign, its
significand and its exponent, and every operation is stated on the rational number it stands for:
the exact result is rounded once, to the nearest double, a tie to the even significand.

* `Binary64`: the finite doubles.
* `Binary64.round`: the double nearest to a quotient of naturals, absent beyond the largest one.
* `Binary64.scaleTen`: a whole number times a power of ten, as a reader computes it from the
  digits it has gathered: the nearest double of the whole number, multiplied or divided by the
  nearest double of the power.
-/

namespace PlcAudit

/-- A finite double: `± significand * 2 ^ exponent`, the significand below `2 ^ 53`, and at least
`2 ^ 52` unless the exponent is the least one, `-1074`. -/
structure Binary64 where
  negative : Bool
  significand : Nat
  exponent : Int
  deriving DecidableEq, Repr, Inhabited

namespace Binary64

/-- The least significand that has all 53 bits, `2 ^ 52`. -/
def hiddenBit : Nat := 0x10000000000000

/-- Positive or negative zero. -/
def zero (negative : Bool) : Binary64 := ⟨negative, 0, -1074⟩

/-- Whether a number is zero, of either sign. -/
def isZero (x : Binary64) : Bool := x.significand == 0

/-- The double of the other sign. -/
def neg (x : Binary64) : Binary64 := { x with negative := !x.negative }

/-- The quotient `n / d` to the nearest natural, a tie to the even one. -/
def roundDiv (n d : Nat) : Nat :=
  let q := n / d
  let r := 2 * (n % d)
  if r < d then q else if d < r then q + 1 else q + q % 2

/-- The numerator and denominator of `n / d * 2 ^ (-e)`. -/
def shift (n d : Nat) (e : Int) : Nat × Nat :=
  if 0 ≤ e then (n, d * Nat.pow 2 e.toNat) else (n * Nat.pow 2 (-e).toNat, d)

/-- The exponent for which `n / d` has a significand of 53 bits, but not below `-1074`. -/
def exponentOf (n d : Nat) : Int :=
  let e : Int := (Nat.log2 n : Int) - Nat.log2 d - 52
  let e := let s := shift n d e; if s.1 < s.2 * hiddenBit then e - 1 else e
  max e (-1074)

/-- The double nearest to `n / d`, or `none` when that lies beyond the largest finite double. -/
def round (negative : Bool) (n d : Nat) : Option Binary64 :=
  if n = 0 then some (zero negative)
  else
    let e := exponentOf n d
    let s := shift n d e
    let m := roundDiv s.1 s.2
    let x : Binary64 := if m = 2 * hiddenBit then ⟨negative, hiddenBit, e + 1⟩ else ⟨negative, m, e⟩
    if x.exponent ≤ 971 then some x else none

/-- The magnitude as a quotient of naturals. -/
def ratio (x : Binary64) : Nat × Nat :=
  if 0 ≤ x.exponent then (x.significand * Nat.pow 2 x.exponent.toNat, 1)
  else (x.significand, Nat.pow 2 (-x.exponent).toNat)

/-- The product, rounded. -/
def mul (x y : Binary64) : Option Binary64 :=
  let a := x.ratio
  let b := y.ratio
  round (x.negative != y.negative) (a.1 * b.1) (a.2 * b.2)

/-- The quotient by a nonzero double, rounded. -/
def div (x y : Binary64) : Option Binary64 :=
  let a := x.ratio
  let b := y.ratio
  round (x.negative != y.negative) (a.1 * b.2) (a.2 * b.1)

/-- The double nearest to a natural number. -/
def ofNat (n : Nat) : Option Binary64 := round false n 1

/-- Divides by the double nearest to `10 ^ k`; for a greater `k` than a double can express, by
`10 ^ 308` as often as needed. -/
def divTen (x : Binary64) (k : Nat) : Option Binary64 :=
  if k ≤ 308 then do x.div (← ofNat (Nat.pow 10 k))
  else if x.isZero then some x
  else do divTen (← x.div (← ofNat (Nat.pow 10 308))) (k - 308)
termination_by k

/-- `n * 10 ^ e` for a magnitude read from a literal; `none` beyond the largest double. -/
def scaleTen (n : Nat) (e : Int) : Option Binary64 := do
  let x ← ofNat n
  if e < 0 then x.divTen (-e).toNat
  else if e ≤ 308 then x.mul (← ofNat (Nat.pow 10 e.toNat))
  else if x.isZero then some x
  else none

end Binary64

end PlcAudit
