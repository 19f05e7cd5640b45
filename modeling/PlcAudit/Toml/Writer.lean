import PlcAudit.Toml.Text

/-!
# Writing TOML

A string is written in the plainest style that can hold it, and a list of strings over several lines
once it has two of them.

* `Style`: the styles of a string; `styleOf` picks one.
* `writeString`: a string.
* `writeStrings`: a list of strings.
-/

namespace PlcAudit.Toml

/-- The ways in which a string can be written. -/
inductive Style where
  | basic
  | literal
  | longBasic
  | longLiteral
  deriving DecidableEq, Repr

/-- Whether a control character other than tab and line feed occurs. -/
def hasControl (cs : List Char) : Bool := cs.any fun c => !isPlain c && c ≠ '\n'

/-- Whether the same character occurs three times in a row. -/
def hasTriple (q : Char) : List Char → Bool
  | a :: b :: c :: r => (a = q && b = q && c = q) || hasTriple q (b :: c :: r)
  | _ => false

/-- The plainest style that can hold a text: without escapes if possible, and on one line if it is
on one. -/
def styleOf (cs : List Char) : Style :=
  if !hasControl cs && !cs.contains '\\' && !cs.contains '"' && !cs.contains '\n' then .basic
  else if !hasControl cs && !cs.contains '\'' && !cs.contains '\n' then .literal
  else if !hasControl cs && !cs.contains '\\' && !hasTriple '"' cs then .longBasic
  else if !hasControl cs && !hasTriple '\'' cs then .longLiteral
  else if cs.contains '\n' then .longBasic
  else .basic

/-- A digit in base sixteen, upper case. -/
def upperHexDigit (n : Nat) : Char := (Nat.digitChar n).toUpper

/-- One character between double quotes, line feeds and quotes apart. -/
def escapedChar (c : Char) : List Char :=
  if c = '\x08' then ['\\', 'b']
  else if c = '\t' then ['\\', 't']
  else if c = '\x0c' then ['\\', 'f']
  else if c = '\r' then ['\\', 'r']
  else if c = '\\' then ['\\', '\\']
  else if isPlain c then [c]
  else ['\\', 'u', '0', '0', upperHexDigit (c.toNat / 16), upperHexDigit (c.toNat % 16)]

/-- One character of a string on one line. -/
def basicChar (c : Char) : List Char :=
  if c = '"' then ['\\', '"'] else if c = '\n' then ['\\', 'n'] else escapedChar c

/-- A text between tripled double quotes: of quotes in a row each third is escaped.  `quotes` is the
number of them that stand just before. -/
def longBasicChars (quotes : Nat) : List Char → List Char
  | [] => []
  | c :: cs =>
    if c = '"' then
      if 2 ≤ quotes then '\\' :: '"' :: longBasicChars 0 cs
      else '"' :: longBasicChars (quotes + 1) cs
    else if c = '\n' then '\n' :: longBasicChars 0 cs
    else escapedChar c ++ longBasicChars 0 cs

/-- The line feed after tripled quotes, which does not count; written when the text has others. -/
def openingNewline (cs : List Char) : List Char := if cs.contains '\n' then ['\n'] else []

/-- A text in a style. -/
def writeStyled (style : Style) (cs : List Char) : List Char :=
  match style with
  | .basic => '"' :: (cs.flatMap basicChar ++ ['"'])
  | .literal => '\'' :: (cs ++ ['\''])
  | .longBasic =>
    ['"', '"', '"'] ++ openingNewline cs ++ longBasicChars 0 cs ++ ['"', '"', '"']
  | .longLiteral => ['\'', '\'', '\''] ++ openingNewline cs ++ cs ++ ['\'', '\'', '\'']

/-- A string. -/
def writeString (s : String) : List Char := writeStyled (styleOf s.toList) s.toList

/-- A list of strings: on one line when it has at most one, and else each on its own. -/
def writeStrings : List String → List Char
  | [] => ['[', ']']
  | [s] => '[' :: (writeString s ++ [']'])
  | ss =>
    '[' :: '\n' :: (ss.flatMap fun s => "    ".toList ++ writeString s ++ [',', '\n']) ++ [']']

/-- A truth value. -/
def writeBoolean (b : Bool) : List Char := (if b then "true" else "false").toList

end PlcAudit.Toml
