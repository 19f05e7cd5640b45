import PlcAudit.Text.Digits

/-!
# Strings in TOML

A string is written in one of four ways: between double quotes, with escapes, or between single
quotes, without; and either on one line, or between tripled quotes over several.  A line feed just
after tripled quotes does not count, and neither does a backslash at the end of a line with the
blanks and line ends after it.

* `readBasic`, `readLiteral`, `readLongBasic`, `readLongLiteral`: a string of each kind after its
  opening quotes.
* `readString`: a string of any kind.
-/

namespace PlcAudit.Toml

/-- The white space within a line. -/
def isSpace (c : Char) : Bool := c = ' ' || c = '\t'

/-- The characters that may stand in comments and, quotes and backslashes apart, in strings: tab,
and all that are no control characters. -/
def isPlain (c : Char) : Bool := c = '\t' || (0x20 ≤ c.toNat && c.toNat ≠ 0x7f)

/-- What a one-letter escape stands for. -/
def shortEscape? (c : Char) : Option Char :=
  if c = 'b' then some '\x08'
  else if c = 't' then some '\t'
  else if c = 'n' then some '\n'
  else if c = 'f' then some '\x0c'
  else if c = 'r' then some '\r'
  else if c = '"' then some '"'
  else if c = '\\' then some '\\'
  else none

/-- The character with a code point, if there is one. -/
def charOf? (n : Nat) : Option Char := if n.isValidChar then some (Char.ofNat n) else none

/-- Where in a string with escapes the next character stands. -/
inductive Mode where
  /-- After the given number of quotes that belong to the text. -/
  | plain (quotes : Nat)
  | escape
  /-- Within an escape by number: how many digits are left, and the value of those before. -/
  | digits (left value : Nat)
  /-- Among the blanks and line ends after a backslash at the end of a line. -/
  | skip
  deriving DecidableEq, Repr

/-- What an escape, or the next digit of one, gives: a character, or a mode to go on in. -/
def escapeStep : Mode → Char → Option (Option Char × Mode)
  | .digits left value, c => do
    let v := value * 16 + (← Text.hexValue? c)
    if left ≤ 1 then return (some (← charOf? v), .plain 0) else return (none, .digits (left - 1) v)
  | _, c =>
    if c = 'u' then some (none, .digits 4 0)
    else if c = 'U' then some (none, .digits 8 0)
    else (shortEscape? c).map fun x => (some x, .plain 0)

/-- Adds a character, if there is one. -/
def push (x : Option Char) (acc : List Char) : List Char :=
  match x with
  | some x => x :: acc
  | none => acc

/-- The rest of a string between double quotes.  `acc` holds the characters read so far, the last
one first. -/
def readBasic : Mode → List Char → List Char → Option (List Char × List Char)
  | _, _, [] => none
  | .plain _, acc, c :: r =>
    if c = '"' then some (acc.reverse, r)
    else if c = '\\' then readBasic .escape acc r
    else if isPlain c then readBasic (.plain 0) (c :: acc) r
    else none
  | mode, acc, c :: r =>
    match escapeStep mode c with
    | some (x, mode) => readBasic mode (push x acc) r
    | none => none

/-- The rest of a string between single quotes. -/
def readLiteral (acc : List Char) : List Char → Option (List Char × List Char)
  | [] => none
  | c :: r =>
    if c = '\'' then some (acc.reverse, r)
    else if isPlain c then readLiteral (c :: acc) r
    else none

/-- Whether a line ends here. -/
def startsNewline : List Char → Bool
  | '\n' :: _ => true
  | '\r' :: '\n' :: _ => true
  | _ => false

/-- Whether a backslash before these characters joins two lines. -/
def joinsLines (r : List Char) : Bool := startsNewline (r.dropWhile isSpace)

/-- Whether a blank or a line end stands here. -/
def startsGap (r : List Char) : Bool :=
  startsNewline r || (match r with | c :: _ => isSpace c | [] => false)

/-- A quote `q` in a string between tripled ones, of which `quotes` stand just before and belong to
the text: the rest of the text when the string ends here.  Up to two quotes may stand before the
closing ones. -/
def closes (q : Char) (quotes : Nat) : List Char → Option (List Char)
  | a :: b :: r => if a = q ∧ b = q ∧ ¬(r.head? = some q ∧ quotes < 2) then some r else none
  | _ => none

/-- The rest of a string between tripled double quotes. -/
def readLongBasic : Mode → List Char → List Char → Option (List Char × List Char)
  | _, _, [] => none
  | .plain quotes, acc, c :: r =>
    if c = '"' then
      match closes '"' quotes r with
      | some r => some (acc.reverse, r)
      | none => readLongBasic (.plain (quotes + 1)) (c :: acc) r
    else if c = '\\' then readLongBasic (if joinsLines r then .skip else .escape) acc r
    else if c = '\r' ∧ r.head? = some '\n' then readLongBasic (.plain 0) acc r
    else if c = '\n' ∨ isPlain c then readLongBasic (.plain 0) (c :: acc) r
    else none
  | .skip, acc, _ :: r => readLongBasic (if startsGap r then .skip else .plain 0) acc r
  | mode, acc, c :: r =>
    match escapeStep mode c with
    | some (x, mode) => readLongBasic mode (push x acc) r
    | none => none

/-- The rest of a string between tripled single quotes. -/
def readLongLiteral (quotes : Nat) (acc : List Char) : List Char → Option (List Char × List Char)
  | [] => none
  | c :: r =>
    if c = '\'' then
      match closes '\'' quotes r with
      | some r => some (acc.reverse, r)
      | none => readLongLiteral (quotes + 1) (c :: acc) r
    else if c = '\r' ∧ r.head? = some '\n' then readLongLiteral 0 acc r
    else if c = '\n' ∨ isPlain c then readLongLiteral 0 (c :: acc) r
    else none

/-- What is left after a line end, if there is one here. -/
def dropNewline : List Char → List Char
  | '\n' :: r => r
  | '\r' :: '\n' :: r => r
  | r => r

/-- A string on one line. -/
def readShortString : List Char → Option (List Char × List Char)
  | '"' :: r => readBasic (.plain 0) [] r
  | '\'' :: r => readLiteral [] r
  | _ => none

/-- A string of any kind. -/
def readString : List Char → Option (List Char × List Char)
  | '"' :: '"' :: '"' :: r => readLongBasic (.plain 0) [] (dropNewline r)
  | '\'' :: '\'' :: '\'' :: r => readLongLiteral 0 [] (dropNewline r)
  | r => readShortString r

end PlcAudit.Toml
