import PlcAudit.Json.Basic
import PlcAudit.Number.Shortest

/-!
# Writing JSON

Two layouts of the same value.  The compact one has no white space between tokens and no line feed
at all, so a request is one line; the indented one puts every item and member on a line of its own,
two blanks deeper than its bracket.

* `escapedChar`: one character inside a string.
* `write`: the compact layout.
* `writeIndented`: the indented layout.
-/

namespace PlcAudit.Json

/-! ## Tokens -/

/-- A number of two hexadecimal digits, padded to four. -/
def hexPadded (n : Nat) : List Char :=
  ['0', '0', Nat.digitChar (n / 16), Nat.digitChar (n % 16)]

/-- One character inside a string: quote, backslash and the controls below the blank are escaped,
and every other character stands for itself. -/
def escapedChar (c : Char) : List Char :=
  if c = '"' then ['\\', '"']
  else if c = '\\' then ['\\', '\\']
  else if c = '\x08' then ['\\', 'b']
  else if c = '\x0c' then ['\\', 'f']
  else if c = '\n' then ['\\', 'n']
  else if c = '\r' then ['\\', 'r']
  else if c = '\t' then ['\\', 't']
  else if c.toNat < 0x20 then '\\' :: 'u' :: hexPadded c.toNat
  else [c]

/-- A string with its quotes. -/
def writeString (s : String) : List Char := '"' :: (s.toList.flatMap escapedChar ++ ['"'])

/-- A number: digits with a sign, or the text of a double. -/
def writeNumber : Number → List Char
  | .int n => (toString n).toList
  | .float x => x.text.toList

/-- A truth value. -/
def writeBool (b : Bool) : List Char := (if b then "true" else "false").toList

/-! ## The compact layout -/

mutual

/-- A value without white space between its tokens. -/
def write : Value → List Char
  | .null => "null".toList
  | .bool b => writeBool b
  | .number n => writeNumber n
  | .string s => writeString s
  | .array items => '[' :: (writeItems items ++ [']'])
  | .object members => '\x7b' :: (writeMembers members ++ ['\x7d'])

/-- Items with commas between them. -/
def writeItems : List Value → List Char
  | [] => []
  | [v] => write v
  | v :: vs => write v ++ ',' :: writeItems vs

/-- Members with commas between them. -/
def writeMembers : List (String × Value) → List Char
  | [] => []
  | [(k, v)] => writeString k ++ ':' :: write v
  | (k, v) :: ms => writeString k ++ ':' :: (write v ++ ',' :: writeMembers ms)

end

/-- A value on one line. -/
def compact (v : Value) : String := String.ofList (write v)

/-! ## The indented layout -/

/-- A line feed and the blanks of `depth` levels. -/
def newline (depth : Nat) : List Char := '\n' :: List.replicate (2 * depth) ' '

mutual

/-- A value whose items and members stand on lines of their own, `depth` levels in. -/
def writeIndented (depth : Nat) : Value → List Char
  | .null => "null".toList
  | .bool b => writeBool b
  | .number n => writeNumber n
  | .string s => writeString s
  | .array [] => ['[', ']']
  | .array (v :: vs) => '[' :: (writeIndentedItems (depth + 1) (v :: vs) ++ newline depth ++ [']'])
  | .object [] => ['\x7b', '\x7d']
  | .object (m :: ms) =>
    '\x7b' :: (writeIndentedMembers (depth + 1) (m :: ms) ++ newline depth ++ ['\x7d'])

/-- Items, each on a line of its own. -/
def writeIndentedItems (depth : Nat) : List Value → List Char
  | [] => []
  | [v] => newline depth ++ writeIndented depth v
  | v :: vs => newline depth ++ writeIndented depth v ++ ',' :: writeIndentedItems depth vs

/-- Members, each on a line of its own. -/
def writeIndentedMembers (depth : Nat) : List (String × Value) → List Char
  | [] => []
  | [(k, v)] => newline depth ++ writeString k ++ ':' :: ' ' :: writeIndented depth v
  | (k, v) :: ms =>
    newline depth ++ writeString k ++ ':' :: ' ' :: writeIndented depth v ++
      ',' :: writeIndentedMembers depth ms

end

/-- A value laid out over several lines. -/
def indented (v : Value) : String := String.ofList (writeIndented 0 v)

end PlcAudit.Json
