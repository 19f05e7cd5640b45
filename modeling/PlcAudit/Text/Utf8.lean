/-!
# Bytes and texts

A file and the output of a program are bytes; what is shown of them is text.  Bytes that are no
UTF-8 are replaced rather than refused: each longest beginning of a character that is not continued,
and each byte that begins none, becomes one replacement character.

* `encode`: the bytes of a text.
* `decodeFrom`, `decode`: the text of bytes, with replacements, one byte at a time.
* `decode?`: the text of bytes that are valid as a whole.
-/

namespace PlcAudit.Text

/-- Stands for bytes that are no character. -/
def replacement : Char := '\ufffd'

/-- The bytes of a text. -/
def encode (cs : List Char) : List UInt8 := cs.flatMap String.utf8EncodeChar

/-- The bytes of a character that have been read, while some are still missing: their value so far,
how many are missing, and between which bounds the next one lies. -/
structure Pending where
  value : Nat
  missing : Nat
  low : Nat
  high : Nat
  deriving DecidableEq, Repr

/-- What follows a byte that begins a character of several bytes.  The bounds leave out overlong
forms, surrogates and values beyond the last code point. -/
def Pending.ofLead? (b : UInt8) : Option Pending :=
  let n := b.toNat
  if 0xc2 ≤ n ∧ n ≤ 0xdf then some ⟨n - 0xc0, 1, 0x80, 0xbf⟩
  else if n = 0xe0 then some ⟨0, 2, 0xa0, 0xbf⟩
  else if n = 0xed then some ⟨0xd, 2, 0x80, 0x9f⟩
  else if 0xe1 ≤ n ∧ n ≤ 0xef then some ⟨n - 0xe0, 2, 0x80, 0xbf⟩
  else if n = 0xf0 then some ⟨0, 3, 0x90, 0xbf⟩
  else if n = 0xf4 then some ⟨4, 3, 0x80, 0x8f⟩
  else if 0xf1 ≤ n ∧ n ≤ 0xf3 then some ⟨n - 0xf0, 3, 0x80, 0xbf⟩
  else none

/-- A byte where a character begins. -/
def decodeLead (b : UInt8) : List Char × Option Pending :=
  if b.toNat < 0x80 then ([Char.ofNat b.toNat], none)
  else
    match Pending.ofLead? b with
    | some p => ([], some p)
    | none => ([replacement], none)

/-- One byte: the characters it completes, and what is pending after it. -/
def decodeByte : Option Pending → UInt8 → List Char × Option Pending
  | none, b => decodeLead b
  | some p, b =>
    if p.low ≤ b.toNat ∧ b.toNat ≤ p.high then
      let value := p.value * 64 + (b.toNat - 0x80)
      if p.missing = 1 then ([Char.ofNat value], none)
      else ([], some ⟨value, p.missing - 1, 0x80, 0xbf⟩)
    else
      let (cs, q) := decodeLead b
      (replacement :: cs, q)

/-- The text of bytes, the first of which come after what is pending. -/
def decodeFrom : Option Pending → List UInt8 → List Char
  | none, [] => []
  | some _, [] => [replacement]
  | s, b :: bs => (decodeByte s b).1 ++ decodeFrom (decodeByte s b).2 bs

/-- The text of bytes, with replacements. -/
def decode (bs : List UInt8) : List Char := decodeFrom none bs

/-- The text of bytes that are valid, that is, the bytes of a text. -/
def decode? (bs : List UInt8) : Option (List Char) :=
  let cs := decode bs
  if encode cs = bs then some cs else none

@[simp] theorem encode_nil : encode [] = [] := rfl

@[simp] theorem encode_cons (c : Char) (cs : List Char) :
    encode (c :: cs) = String.utf8EncodeChar c ++ encode cs := rfl

@[simp] theorem decode_nil : decode [] = [] := rfl

/-- What is accepted is the encoding of what it is read as. -/
theorem encode_of_decode? {bs : List UInt8} {cs : List Char} (h : decode? bs = some cs) :
    encode cs = bs := by
  simp only [decode?, Option.ite_none_right_eq_some, Option.some.injEq] at h
  exact h.2 ▸ h.1

/-- A text as bytes. -/
def bytesOf (s : String) : List UInt8 := encode s.toList

/-- Bytes as a text, with replacements. -/
def ofBytes (bs : List UInt8) : String := String.ofList (decode bs)

end PlcAudit.Text
