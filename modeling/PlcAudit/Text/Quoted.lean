import PlcAudit.Text.Visible

/-!
# Texts quoted in messages

A text that a message cites stands between double quotes.  The quote and the backslash are escaped,
tab, carriage return, line feed and the null character have short escapes, and every other character
that does not show is written by its code point.

* `quotedChar`: one character inside the quotes.
* `quoted`: the whole citation.
-/

namespace PlcAudit.Text

/-- The digits of a number in base sixteen, lower case. -/
def hexDigits (n : Nat) : List Char := Nat.toDigits 16 n

/-- One character as it stands between the quotes. -/
def quotedChar (c : Char) : List Char :=
  if c = '"' then ['\\', '"']
  else if c = '\\' then ['\\', '\\']
  else if c = '\n' then ['\\', 'n']
  else if c = '\r' then ['\\', 'r']
  else if c = '\t' then ['\\', 't']
  else if c.toNat = 0 then ['\\', '0']
  else if isVisible c then [c]
  else ['\\', 'u', '\x7b'] ++ hexDigits c.toNat ++ ['\x7d']

/-- A text between double quotes, with everything that does not show escaped. -/
def quoted (s : String) : String :=
  String.ofList ('"' :: s.toList.flatMap quotedChar ++ ['"'])

end PlcAudit.Text
