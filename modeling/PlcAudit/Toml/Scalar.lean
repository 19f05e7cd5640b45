import PlcAudit.Number.Binary64
import PlcAudit.Text.Digits
import PlcAudit.Toml.Basic

/-!
# Words, numbers and times in TOML

A value that is neither quoted nor bracketed is one unbroken run of letters, digits and the signs
`+ - . : _`; only a date and its time may have a blank between them.  Each form is recognized as a
whole.

* `integer?`, `isFloat`, `isDate`, `isClock`, `isTime`: the forms.
* `scalar?`: the value of a run.
* `readScalar`: a value at the front of a text.
-/

namespace PlcAudit.Toml

/-- The characters of a run. -/
def isRunChar (c : Char) : Bool :=
  c.isAlphanum || c = '+' || c = '-' || c = '.' || c = ':' || c = '_'

/-! ## Numbers -/

/-- Removes a sign, and says whether it was a minus. -/
def splitSign : List Char → Bool × List Char
  | '-' :: r => (true, r)
  | '+' :: r => (false, r)
  | r => (false, r)

/-- Digits of which each may be preceded by an underscore, the first one excepted; without the
underscores. -/
def digits? (ok : Char → Bool) : List Char → Option (List Char)
  | [] => none
  | [c] => if ok c then some [c] else none
  | c :: '_' :: r => if ok c then (digits? ok r).map (c :: ·) else none
  | c :: r => if ok c then (digits? ok r).map (c :: ·) else none

/-- The digits of a decimal whole number: a zero, or digits that do not begin with one. -/
def wholeDigits? (cs : List Char) : Option (List Char) := do
  let ds ← digits? Char.isDigit cs
  if ds.head? = some '0' ∧ cs.length ≠ 1 then none else some ds

/-- A whole number in a base with a letter of its own. -/
def based? (base : Nat) (cs : List Char) : Option Int := do
  let ds ← digits? (fun c => match Text.hexValue? c with | some v => v < base | none => false) cs
  return (Text.natInBase base ds : Nat)

/-- A decimal whole number with a sign. -/
def signed? (cs : List Char) : Option Int := do
  let (negative, r) := splitSign cs
  let n : Int := Text.natOfDigits (← wholeDigits? r)
  return if negative then -n else n

/-- A whole number of any size. -/
def unbounded? : List Char → Option Int
  | '0' :: 'x' :: r => based? 16 r
  | '0' :: 'o' :: r => based? 8 r
  | '0' :: 'b' :: r => based? 2 r
  | cs => signed? cs

/-- A whole number, of at most 64 bits with its sign. -/
def integer? (cs : List Char) : Option Int :=
  (unbounded? cs).filter fun n => Int64.minValue.toInt ≤ n ∧ n ≤ Int64.maxValue.toInt

/-- The parts before and after the first character that passes a test, without it. -/
def cut (p : Char → Bool) (cs : List Char) : List Char × Option (List Char) :=
  match cs.dropWhile (fun c => !p c) with
  | [] => (cs, none)
  | _ :: r => (cs.takeWhile (fun c => !p c), some r)

/-- Whether `digits * 10 ^ exponent` rounds to a double.  A number beyond every double, or below all
of them, is told by its length. -/
def isFinite (digits : List Char) (exponent : Int) : Bool :=
  let n := Text.natOfDigits digits
  let magnitude := (Nat.toDigits 10 n).length + exponent
  if n = 0 ∨ magnitude < -400 then true
  else if 400 < magnitude then false
  else
    (Binary64.round false (n * Nat.pow 10 exponent.toNat) (Nat.pow 10 (-exponent).toNat)).isSome

/-- The exponent of a fractional number; none is zero. -/
def exponent? : Option (List Char) → Option Int
  | none => some 0
  | some cs => do
    let (negative, r) := splitSign cs
    let n : Int := Text.natOfDigits (← digits? Char.isDigit r)
    return if negative then -n else n

/-- The digits of a fraction; none has no digits. -/
def fraction? : Option (List Char) → Option (List Char)
  | none => some []
  | some cs => digits? Char.isDigit cs

/-- A fractional number: a whole part, and a fraction or an exponent or both.  A positive one must
not exceed the largest double. -/
def isDecimalFloat (cs : List Char) : Bool :=
  let (negative, r) := splitSign cs
  let (mantissa, exponent) := cut (fun c => c = 'e' || c = 'E') r
  let (whole, fraction) := cut (· = '.') mantissa
  match wholeDigits? whole, fraction? fraction, exponent? exponent with
  | some w, some f, some e =>
    (fraction.isSome || exponent.isSome) && (negative || isFinite (w ++ f) (e - f.length))
  | _, _, _ => false

/-- A fractional number, infinite or undefined ones included. -/
def isFloat (cs : List Char) : Bool :=
  let r := (splitSign cs).2
  r = ['i', 'n', 'f'] || r = ['n', 'a', 'n'] || isDecimalFloat cs

/-! ## Times -/

/-- Two digits with a value between the bounds, and what follows them. -/
def pair? (low high : Nat) : List Char → Option (Nat × List Char)
  | a :: b :: r =>
    let n := Text.natOfDigits [a, b]
    if a.isDigit ∧ b.isDigit ∧ low ≤ n ∧ n ≤ high then some (n, r) else none
  | _ => none

/-- What follows a character. -/
def after? (c : Char) : List Char → Option (List Char)
  | a :: r => if a = c then some r else none
  | [] => none

/-- Whether a year has a twenty-ninth of February. -/
def isLeapYear (y : Nat) : Bool := y % 4 = 0 && (y % 100 ≠ 0 || y % 400 = 0)

/-- The number of days in a month. -/
def daysIn (year month : Nat) : Nat :=
  if month = 2 then if isLeapYear year then 29 else 28
  else if month = 4 ∨ month = 6 ∨ month = 9 ∨ month = 11 then 30
  else 31

/-- A date, and what follows it. -/
def date? : List Char → Option (List Char)
  | a :: b :: c :: d :: r => do
    if ¬[a, b, c, d].all Char.isDigit then none
    let (month, r) ← pair? 1 12 (← after? '-' r)
    let (day, r) ← pair? 1 31 (← after? '-' r)
    if day ≤ daysIn (Text.natOfDigits [a, b, c, d]) month then some r else none
  | _ => none

/-- A time of day, and what follows it.  A minute may have a leap second. -/
def clock? (cs : List Char) : Option (List Char) := do
  let (_, r) ← pair? 0 23 cs
  let (_, r) ← pair? 0 59 (← after? ':' r)
  let (_, r) ← pair? 0 60 (← after? ':' r)
  match r with
  | '.' :: f =>
    let r := f.dropWhile Char.isDigit
    if r.length < f.length then some r else none
  | r => some r

/-- The distance from the common time at the end of a run. -/
def isOffset (cs : List Char) : Bool :=
  match cs with
  | ['Z'] | ['z'] => true
  | c :: r =>
    (c = '+' || c = '-') &&
      (do let (_, r) ← pair? 0 23 r
          let (_, r) ← pair? 0 59 (← after? ':' r)
          return r.isEmpty : Option Bool) = some true
  | [] => false

/-- Whether all of a text is a date. -/
def isDate (cs : List Char) : Bool := date? cs = some []

/-- A time of day alone. -/
def isClock (cs : List Char) : Bool := clock? cs = some []

/-- A time of day, with or without an offset. -/
def isZonedClock (cs : List Char) : Bool :=
  match clock? cs with
  | some r => r.isEmpty || isOffset r
  | none => false

/-- A date with a time of day in one run. -/
def isMoment (cs : List Char) : Bool :=
  match date? cs with
  | some (c :: r) => (c = 'T' || c = 't') && isZonedClock r
  | _ => false

/-- A date, a time of day, or both in one run. -/
def isTime (cs : List Char) : Bool := isDate cs || isClock cs || isMoment cs

/-! ## Runs -/

/-- The value of a run. -/
def scalar? (cs : List Char) : Option Value :=
  if cs = "true".toList then some (.boolean true)
  else if cs = "false".toList then some (.boolean false)
  else
    match integer? cs with
    | some n => some (.integer n)
    | none =>
      if isFloat cs then some (.float (String.ofList cs))
      else if isTime cs then some (.time (String.ofList cs))
      else none

/-- The run at the front, and what follows it. -/
def spanRun (cs : List Char) : List Char × List Char :=
  (cs.takeWhile isRunChar, cs.dropWhile isRunChar)

/-- A value of one run, or of a date and its time with a blank between them. -/
def readScalar (cs : List Char) : Option (Value × List Char) :=
  let (a, r) := spanRun cs
  match r with
  | ' ' :: c :: r' =>
    if isDate a ∧ isRunChar c then
      let (b, r'') := spanRun (c :: r')
      if isZonedClock b then some (.time (String.ofList (a ++ ' ' :: b)), r'') else none
    else (scalar? a).map (·, r)
  | _ => (scalar? a).map (·, r)

end PlcAudit.Toml
