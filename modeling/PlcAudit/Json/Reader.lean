import PlcAudit.Json.Basic
import PlcAudit.Json.Fault
import PlcAudit.Text.Digits

/-!
# Reading JSON

A reader for JSON texts that says exactly where and why a text is refused.  It works on the list of
characters that are left; each part returns its value and what follows it.

* `readString`: the rest of a string after its opening quote.
* `Literal`: a number as it is spelled, read by `readLiteral` and valued by `Literal.number`.
* `readValue`: one value.
* `read`: a whole text.

Two limits belong to the format accepted here.  At most 127 brackets may be open at once, and a
number must not exceed the largest double.
-/

namespace PlcAudit.Json

open Text (hexValue? digitValue natOfDigits)

/-- What a part of the reader gives: a value and the characters after it, or a refusal. -/
abbrev Reading (α : Type) := Except Refusal (α × List Char)

/-- The characters that may stand between tokens. -/
def isSpace (c : Char) : Bool := c = ' ' || c = '\n' || c = '\t' || c = '\r'

/-- What is left after the white space at the front. -/
def skipSpace (cs : List Char) : List Char := cs.dropWhile isSpace

/-! ## Strings -/

/-- The value of four hexadecimal digits. -/
def hexValue4? (a b c d : Char) : Option Nat := do
  let a ← hexValue? a
  let b ← hexValue? b
  let c ← hexValue? c
  let d ← hexValue? d
  return ((a * 16 + b) * 16 + c) * 16 + d

/-- Four bytes are taken for the digits of an escape, whatever they are. -/
def refuseHex (rest : List Char) : Refusal :=
  if byteLength rest < 4 then .atEnd .endInString
  else ⟨.invalidEscape, byteLength rest - 4⟩

/-- The character that a one-letter escape stands for. -/
def shortEscape? (c : Char) : Option Char :=
  if c = '"' ∨ c = '\\' ∨ c = '/' then some c
  else if c = 'b' then some '\x08'
  else if c = 'f' then some '\x0c'
  else if c = 'n' then some '\n'
  else if c = 'r' then some '\r'
  else if c = 't' then some '\t'
  else none

/-- The units that may begin a pair. -/
def isHighSurrogate (n : Nat) : Bool := 0xd800 ≤ n && n ≤ 0xdbff

/-- The units that may end a pair. -/
def isLowSurrogate (n : Nat) : Bool := 0xdc00 ≤ n && n ≤ 0xdfff

/-- The character beyond the first plane that two surrogates stand for. -/
def joinSurrogates (high low : Nat) : Char :=
  Char.ofNat ((high - 0xd800) * 0x400 + (low - 0xdc00) + 0x10000)

/-- The rest of a string after its opening quote.  `acc` holds the characters read so far, the last
one first. -/
def readString (acc : List Char) : List Char → Reading (List Char)
  | [] => .error (.atEnd .endInString)
  | c :: r =>
    if c = '"' then .ok (acc.reverse, r)
    else if c = '\\' then
      match r with
      | [] => .error (.atEnd .endInString)
      | e :: r' =>
        if e = 'u' then
          match r' with
          | h₁ :: h₂ :: h₃ :: h₄ :: r'' =>
            match hexValue4? h₁ h₂ h₃ h₄ with
            | none => .error (refuseHex r')
            | some n =>
              if isLowSurrogate n then .error (.before .loneSurrogate r'')
              else if isHighSurrogate n then
                match r'' with
                | [] => .error (.atEnd .endInString)
                | b :: s =>
                  if b ≠ '\\' then .error (.within .unexpectedHexEnd r'')
                  else
                    match s with
                    | [] => .error (.atEnd .endInString)
                    | u :: s' =>
                      if u ≠ 'u' then .error (.within .unexpectedHexEnd s)
                      else
                        match s' with
                        | l₁ :: l₂ :: l₃ :: l₄ :: s'' =>
                          match hexValue4? l₁ l₂ l₃ l₄ with
                          | none => .error (refuseHex s')
                          | some m =>
                            if isLowSurrogate m then readString (joinSurrogates n m :: acc) s''
                            else .error (.before .loneSurrogate s'')
                        | _ => .error (refuseHex s')
              else readString (Char.ofNat n :: acc) r''
          | _ => .error (refuseHex r')
        else
          match shortEscape? e with
          | some x => readString (x :: acc) r'
          | none => .error (.within .invalidEscape r)
    else if c.toNat < 0x20 then .error (.before .controlCharacter r)
    else readString (c :: acc) r

/-! ## Numbers -/

/-- A number as it is spelled: the digits before the point, those after it, and the sign and digits
of the exponent. -/
structure Literal where
  negative : Bool
  whole : List Char
  fraction : Option (List Char)
  exponent : Option (Bool × List Char)
  deriving Repr

/-- The digits at the front, and what follows them. -/
def spanDigits (cs : List Char) : List Char × List Char :=
  (cs.takeWhile Char.isDigit, cs.dropWhile Char.isDigit)

/-- The digits before the point: a lone zero, or digits that do not start with one. -/
def readWhole : List Char → Reading (List Char)
  | [] => .error (.atEnd .endInValue)
  | c :: r =>
    if c = '0' then
      match r with
      | d :: _ => if d.isDigit then .error (.within .invalidNumber r) else .ok ([c], r)
      | [] => .ok ([c], r)
    else if c.isDigit then .ok (spanDigits (c :: r))
    else .error (.within .invalidNumber (c :: r))

/-- The digits after a point, if there is one. -/
def readFraction : List Char → Reading (Option (List Char))
  | '.' :: r =>
    match spanDigits r with
    | ([], _) => .error (.within (if r.isEmpty then .endInValue else .invalidNumber) r)
    | (ds, r') => .ok (some ds, r')
  | cs => .ok (none, cs)

/-- The sign of an exponent, and what follows it. -/
def readSign : List Char → Bool × List Char
  | '-' :: r => (true, r)
  | '+' :: r => (false, r)
  | r => (false, r)

/-- The exponent, if there is one. -/
def readExponent : List Char → Reading (Option (Bool × List Char))
  | [] => .ok (none, [])
  | c :: r =>
    if c = 'e' ∨ c = 'E' then
      let (negative, r') := readSign r
      match spanDigits r' with
      | ([], _) => .error (.within (if r'.isEmpty then .endInValue else .invalidNumber) r')
      | (ds, r'') => .ok (some (negative, ds), r'')
    else .ok (none, c :: r)

/-- A number as it is spelled. -/
def readLiteral (cs : List Char) : Except Refusal (Literal × List Char) := do
  let (negative, r) := match cs with
    | '-' :: r => (true, r)
    | r => (false, r)
  let (whole, r) ← readWhole r
  let (fraction, r) ← readFraction r
  let (exponent, r) ← readExponent r
  return (⟨negative, whole, fraction, exponent⟩, r)

/-- The leading digits of a number as far as they fit in 64 bits, with the power of ten that their
last one stands for.  Once a digit did not fit, the number is `full`. -/
structure Significand where
  value : Nat
  exponent : Int
  full : Bool
  deriving Repr

/-- A further digit before the point; one that does not fit still counts as a place. -/
def Significand.pushWhole (s : Significand) (c : Char) : Significand :=
  let n := s.value * 10 + digitValue c
  if s.full ∨ UInt64.size ≤ n then { s with exponent := s.exponent + 1, full := true }
  else { s with value := n }

/-- A further digit after the point; one that does not fit, and all after it, are dropped. -/
def Significand.pushFraction (s : Significand) (c : Char) : Significand :=
  let n := s.value * 10 + digitValue c
  if s.full ∨ UInt64.size ≤ n then { s with full := true }
  else { s with value := n, exponent := s.exponent - 1 }

/-- The leading digits of a literal.  Digits after the point are tried afresh, so that one may
still fit after a digit before the point did not. -/
def Literal.significand (l : Literal) : Significand :=
  let w := l.whole.foldl Significand.pushWhole ⟨0, 0, false⟩
  (l.fraction.getD []).foldl Significand.pushFraction { w with full := false }

/-- The exponent that digits spell, or, when it exceeds 31 bits, how many digits follow the one
that made it so. -/
def exponentOfDigits (n : Nat) : List Char → Except Nat Nat
  | [] => .ok n
  | c :: cs =>
    let m := n * 10 + digitValue c
    if Int32.maxValue.toInt < m then .error cs.length else exponentOfDigits m cs

/-- The sum, kept within the 32-bit range. -/
def clampExponent (e : Int) : Int := max Int32.minValue.toInt (min Int32.maxValue.toInt e)

/-- The double that a literal spells, or, when it is out of range, how many digits follow the place
where that shows. -/
def Literal.float (l : Literal) : Except Nat Binary64 := do
  let s := l.significand
  let give (x : Option Binary64) : Except Nat Binary64 :=
    match x with
    | some x => .ok { x with negative := l.negative }
    | none => .error 0
  match l.exponent with
  | none => give (Binary64.scaleTen s.value s.exponent)
  | some (negative, ds) =>
    match exponentOfDigits 0 ds with
    | .ok e =>
      let exponent := if negative then s.exponent - e else s.exponent + e
      give (Binary64.scaleTen s.value (clampExponent exponent))
    | .error left => if s.value = 0 ∨ negative then give (some (.zero false)) else .error left

/-- The number that a literal spells.  Without fraction and exponent it is whole if it fits in 64
bits; negative zero is a double. -/
def Literal.number (l : Literal) : Except Nat Number :=
  let n := natOfDigits l.whole
  let fits := if l.negative then n ≠ 0 ∧ Int64.minValue.toInt ≤ -n else n < UInt64.size
  if l.fraction.isNone ∧ l.exponent.isNone ∧ fits then
    .ok (.int (if l.negative then -n else n))
  else l.float.map .float

/-- A number. -/
def readNumber (cs : List Char) : Except Refusal (Number × List Char) := do
  let (l, r) ← readLiteral cs
  match l.number with
  | .ok n => return (n, r)
  | .error left => throw ⟨.numberOutOfRange, byteLength r + left⟩

/-! ## Values -/

/-- The rest of a word of the format, such as `true` after its first letter. -/
def readIdent (v : Value) : List Char → List Char → Reading Value
  | [], r => .ok (v, r)
  | _ :: _, [] => .error (.atEnd .endInValue)
  | w :: ws, c :: r => if c = w then readIdent v ws r else .error (.within .expectedIdent (c :: r))

/-- How many brackets may be open at once. -/
def maxDepth : Nat := 127

mutual

/-- One value, with white space before it.  `fuel` bounds the calls, and `depth` is the number of
brackets that may still be opened. -/
def readValue : Nat → Nat → List Char → Reading Value
  | 0, _, cs => .error (.within .expectedValue cs)
  | fuel + 1, depth, cs =>
    match skipSpace cs with
    | [] => .error (.atEnd .endInValue)
    | c :: r =>
      if c = '"' then (readString [] r).map fun (s, r) => (.string (String.ofList s), r)
      else if c = '[' then
        if depth = 0 then .error (.within .recursionLimit (c :: r))
        else
          match skipSpace r with
          | [] => .error (.atEnd .endInList)
          | ']' :: r => .ok (.array [], r)
          | r => (readItems fuel (depth - 1) [] r).map fun (vs, r) => (.array vs, r)
      else if c = '{' then
        if depth = 0 then .error (.within .recursionLimit (c :: r))
        else
          match skipSpace r with
          | [] => .error (.atEnd .endInObject)
          | '}' :: r => .ok (.object [], r)
          | r => (readMembers fuel (depth - 1) [] r).map fun (ms, r) => (.object ms, r)
      else if c = 't' then readIdent (.bool true) ['r', 'u', 'e'] r
      else if c = 'f' then readIdent (.bool false) ['a', 'l', 's', 'e'] r
      else if c = 'n' then readIdent .null ['u', 'l', 'l'] r
      else if c = '-' ∨ c.isDigit then (readNumber (c :: r)).map fun (n, r) => (.number n, r)
      else .error (.within .expectedValue (c :: r))

/-- The items of a list from the next one to the closing bracket.  `acc` holds the items read so
far, the last one first. -/
def readItems : Nat → Nat → List Value → List Char → Reading (List Value)
  | 0, _, _, cs => .error (.within .expectedValue cs)
  | fuel + 1, depth, acc, cs =>
    match readValue fuel depth cs with
    | .error e => .error e
    | .ok (v, r) =>
      match skipSpace r with
      | [] => .error (.atEnd .endInList)
      | c :: r =>
        if c = ']' then .ok ((v :: acc).reverse, r)
        else if c = ',' then
          match skipSpace r with
          | ']' :: r => .error (.within .trailingComma (']' :: r))
          | r => readItems fuel depth (v :: acc) r
        else .error (.within .expectedListCommaOrEnd (c :: r))

/-- The members of an object from the next one to the closing brace.  `acc` holds the members read
so far, the last one first. -/
def readMembers : Nat → Nat → List (String × Value) → List Char →
    Reading (List (String × Value))
  | 0, _, _, cs => .error (.within .expectedValue cs)
  | fuel + 1, depth, acc, cs =>
    match cs with
    | [] => .error (.atEnd .endInValue)
    | q :: r =>
      if q ≠ '"' then .error (.within .keyMustBeString (q :: r))
      else
        match readString [] r with
        | .error e => .error e
        | .ok (key, r) =>
          match skipSpace r with
          | [] => .error (.atEnd .endInObject)
          | c :: r =>
            if c ≠ ':' then .error (.within .expectedColon (c :: r))
            else
              match readValue fuel depth r with
              | .error e => .error e
              | .ok (v, r) =>
                let acc := (String.ofList key, v) :: acc
                match skipSpace r with
                | [] => .error (.atEnd .endInObject)
                | c :: r =>
                  if c = '}' then .ok (acc.reverse, r)
                  else if c = ',' then
                    match skipSpace r with
                    | '}' :: r => .error (.within .trailingComma ('}' :: r))
                    | r => readMembers fuel depth acc r
                  else .error (.within .expectedObjectCommaOrEnd (c :: r))

end

/-- Reads a whole text: one value, and nothing but white space after it. -/
def read (cs : List Char) : Except Refusal Value :=
  match readValue (2 * cs.length + 2) maxDepth cs with
  | .error e => .error e
  | .ok (v, r) =>
    match skipSpace r with
    | [] => .ok v
    | c :: r => .error (.within .trailingCharacters (c :: r))

end PlcAudit.Json
