import PlcAudit.Text.Utf8

/-!
# Octets

A script and the data that it works on are bytes.  They are kept as characters below 256, one for
each byte, so that what a script spells can be written down as characters here.

* `Octets`: such a list.
* `ofBytes`, `toBytes`, `ofText`, `toText`: to and from bytes and texts.
* `splitLines`: the lines of data, each with whether a line feed ends it.
-/

namespace PlcAudit.Shell

/-- Bytes, each as the character with its value. -/
abbrev Octets := List Char

/-- Bytes as octets. -/
def ofBytes (bs : List UInt8) : Octets := bs.map fun b => Char.ofNat b.toNat

/-- Octets as bytes. -/
def toBytes (cs : Octets) : List UInt8 := cs.map fun c => UInt8.ofNat c.toNat

/-- The bytes of a text. -/
def ofText (s : String) : Octets := ofBytes (Text.bytesOf s)

/-- The text of bytes. -/
def toText (cs : Octets) : String := Text.ofBytes (toBytes cs)

/-- The lines of data, each with whether a line feed ends it; only the last may lack one. -/
def splitLines : Octets → List (Octets × Bool)
  | [] => []
  | c :: cs =>
    if c = '\n' then ([], true) :: splitLines cs
    else
      match splitLines cs with
      | [] => [([c], false)]
      | (l, ended) :: ls => (c :: l, ended) :: ls

/-- The lines of data. -/
def linesOf (cs : Octets) : List Octets := (splitLines cs).map (·.1)

/-- Lines, each with a line feed. -/
def joinLines (ls : List Octets) : Octets := ls.flatMap (· ++ ['\n'])

/-- The text of a number. -/
def ofNat (n : Nat) : Octets := Nat.toDigits 10 n

/-- The text of an integer. -/
def ofInt (n : Int) : Octets := if n < 0 then '-' :: ofNat n.natAbs else ofNat n.natAbs

/-- The number that decimal digits spell. -/
def toNat? (cs : Octets) : Option Nat :=
  if cs.isEmpty ∨ ¬cs.all Char.isDigit then none
  else some (cs.foldl (fun n c => 10 * n + (c.toNat - '0'.toNat)) 0)

/-- The integer that decimal digits spell, with a sign. -/
def toInt? (cs : Octets) : Option Int :=
  match cs with
  | '-' :: r => (toNat? r).map fun n => -(n : Int)
  | '+' :: r => (toNat? r).map Int.ofNat
  | r => (toNat? r).map Int.ofNat

end PlcAudit.Shell
