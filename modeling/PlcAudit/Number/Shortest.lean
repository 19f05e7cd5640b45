import PlcAudit.Number.Binary64

/-!
# The shortest decimal of a double

Among the decimals that round to a given double, the one with the fewest digits is written, and of
several of that length the nearest.  The search is exact: on the decimal grid of each length the two
neighbours of the double are tried.

* `Decimal`: digits and a power of ten.
* `Binary64.shortest`: the shortest decimal of a nonzero double.
* `Binary64.text`: how a double is written in a message: in plain form when its magnitude is from
  `1e-5` up to but not including `1e16`, and in scientific form otherwise.
-/

namespace PlcAudit

/-- The number `digits * 10 ^ exponent`. -/
structure Decimal where
  digits : Nat
  exponent : Int
  deriving DecidableEq, Repr, Inhabited

namespace Decimal

/-- How many decimal digits the number is written with. -/
def length (d : Decimal) : Nat := (Nat.toDigits 10 d.digits).length

/-- The same number without trailing zeros among its digits; `fuel` bounds their count. -/
def normalize : Nat → Decimal → Decimal
  | 0, d => d
  | fuel + 1, d =>
    if d.digits ≠ 0 ∧ d.digits % 10 = 0 then normalize fuel ⟨d.digits / 10, d.exponent + 1⟩ else d

end Decimal

namespace Binary64

/-- The nonzero magnitude, and the two ends of the interval of numbers that round to it, as
numerators over one denominator. -/
structure Neighbourhood where
  low : Nat
  value : Nat
  high : Nat
  denominator : Nat
  /-- Whether the two ends themselves round to the double. -/
  closed : Bool
  deriving Repr

/-- The numbers that round to a nonzero double.  Below a power of two the spacing halves, so the
lower end is nearer there. -/
def neighbourhood (x : Binary64) : Neighbourhood :=
  let below := if x.significand = hiddenBit ∧ -1074 < x.exponent then 1 else 2
  let e := x.exponent - 2
  let u := if 0 ≤ e then Nat.pow 2 e.toNat else 1
  { low := (4 * x.significand - below) * u
    value := 4 * x.significand * u
    high := (4 * x.significand + 2) * u
    denominator := if 0 ≤ e then 1 else Nat.pow 2 (-e).toNat
    closed := x.significand % 2 = 0 }

/-- Whether `d` lies in the interval. -/
def Neighbourhood.holds (r : Neighbourhood) (d : Decimal) : Bool :=
  let v := if 0 ≤ d.exponent then d.digits * Nat.pow 10 d.exponent.toNat * r.denominator
    else d.digits * r.denominator
  let s := if 0 ≤ d.exponent then 1 else Nat.pow 10 (-d.exponent).toNat
  if r.closed then r.low * s ≤ v && v ≤ r.high * s else r.low * s < v && v < r.high * s

/-- The exponent `k` with `10 ^ (k - 1) ≤ value < 10 ^ k`, found upwards from a lower bound. -/
def Neighbourhood.magnitude (r : Neighbourhood) : Nat → Int → Int
  | 0, k => k
  | fuel + 1, k =>
    let reached := if 0 ≤ k then r.value < Nat.pow 10 k.toNat * r.denominator
      else r.value * Nat.pow 10 (-k).toNat < r.denominator
    if reached then k else r.magnitude fuel (k + 1)

/-- On the grid of multiples of `10 ^ k`, the neighbour of the value that rounds to the double; of
two the nearer, and of two equally near the even one. -/
def Neighbourhood.onGrid (r : Neighbourhood) (k : Int) : Option Decimal :=
  let n := if 0 ≤ k then r.value else r.value * Nat.pow 10 (-k).toNat
  let d := if 0 ≤ k then r.denominator * Nat.pow 10 k.toNat else r.denominator
  let lower : Decimal := ⟨n / d, k⟩
  let upper : Decimal := ⟨n / d + 1, k⟩
  let nearest : Decimal := ⟨roundDiv n d, k⟩
  if r.holds nearest then some nearest
  else if r.holds lower then some lower
  else if r.holds upper then some upper
  else none

/-- The first grid with a hit, from `n` digits up to seventeen. -/
def Neighbourhood.search (r : Neighbourhood) (magnitude : Int) : Nat → Nat → Option Decimal
  | 0, _ => none
  | fuel + 1, n =>
    match r.onGrid (magnitude - n) with
    | some d => some d
    | none => r.search magnitude fuel (n + 1)

/-- The shortest decimal that rounds to the magnitude. -/
def shortest (x : Binary64) : Decimal :=
  if x.isZero then ⟨0, 0⟩
  else
    let r := x.neighbourhood
    let bits : Int := (Nat.log2 x.significand : Int) + x.exponent
    let start := if 0 ≤ bits then bits * 3 / 10 else bits * 4 / 10 + bits / 10
    let m := r.magnitude 400 (start - 1)
    ((r.search m 17 1).getD ⟨0, 0⟩).normalize 20

/-- Digits with a decimal point after the first `whole` of them; a missing part is a zero. -/
def pointed (digits : List Char) (whole : Nat) : List Char :=
  let fraction := digits.drop whole
  digits.take whole ++ ['.'] ++ if fraction.isEmpty then ['0'] else fraction

/-- The magnitude, digits `ds` and value `0.ds * 10 ^ m`, in plain form. -/
def plainText (ds : List Char) (m : Int) : List Char :=
  if m ≤ 0 then '0' :: '.' :: (List.replicate (-m).toNat '0' ++ ds)
  else pointed (ds ++ List.replicate (m.toNat - ds.length) '0') m.toNat

/-- The magnitude, digits `ds` and value `0.ds * 10 ^ m`, in scientific form. -/
def scientificText (ds : List Char) (m : Int) : List Char :=
  let e := m - 1
  let mantissa := match ds with
    | d :: rest@(_ :: _) => d :: '.' :: rest
    | _ => ds
  mantissa ++ ['e', if e < 0 then '-' else '+'] ++ Nat.toDigits 10 e.natAbs

/-- How a double is written in a message. -/
def text (x : Binary64) : String :=
  let sign := if x.negative then ['-'] else []
  if x.isZero then String.ofList (sign ++ ['0', '.', '0'])
  else
    let d := x.shortest
    let ds := Nat.toDigits 10 d.digits
    let m := d.exponent + ds.length
    let plain := -5 < m ∧ m ≤ 16
    String.ofList (sign ++ if plain then plainText ds m else scientificText ds m)

end Binary64

end PlcAudit
