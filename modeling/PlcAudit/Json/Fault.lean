/-!
# Why a text is not JSON

A text that is not JSON is refused with a cause and a place.  The place is kept as the number of
bytes that follow it, because a reader knows what is left of its text and not where it began; line
and column are worked out when the message is written.

* `SyntaxFault`: the causes, with their wording in `SyntaxFault.message`.
* `Refusal`: a cause and its place.
* `locate`: line and column of a place.
-/

namespace PlcAudit.Json

/-- What is wrong at the place where reading stopped. -/
inductive SyntaxFault where
  | endInValue
  | endInList
  | endInObject
  | endInString
  | expectedValue
  | expectedIdent
  | invalidNumber
  | numberOutOfRange
  | controlCharacter
  | invalidEscape
  | loneSurrogate
  | unexpectedHexEnd
  | trailingComma
  | trailingCharacters
  | expectedListCommaOrEnd
  | expectedObjectCommaOrEnd
  | expectedColon
  | keyMustBeString
  | recursionLimit
  deriving DecidableEq, Repr

/-- The wording of a cause. -/
def SyntaxFault.message : SyntaxFault → String
  | endInValue => "EOF while parsing a value"
  | endInList => "EOF while parsing a list"
  | endInObject => "EOF while parsing an object"
  | endInString => "EOF while parsing a string"
  | expectedValue => "expected value"
  | expectedIdent => "expected ident"
  | invalidNumber => "invalid number"
  | numberOutOfRange => "number out of range"
  | controlCharacter => "control character (\\u0000-\\u001F) found while parsing a string"
  | invalidEscape => "invalid escape"
  | loneSurrogate => "lone leading surrogate in hex escape"
  | unexpectedHexEnd => "unexpected end of hex escape"
  | trailingComma => "trailing comma"
  | trailingCharacters => "trailing characters"
  | expectedListCommaOrEnd => "expected `,` or `]`"
  | expectedObjectCommaOrEnd => "expected `,` or `\x7d`"
  | expectedColon => "expected `:`"
  | keyMustBeString => "key must be a string"
  | recursionLimit => "recursion limit exceeded"

/-- A cause, and the number of bytes of the text that follow the place it was found at. -/
structure Refusal where
  fault : SyntaxFault
  remaining : Nat
  deriving DecidableEq, Repr

/-- The length of a text in bytes. -/
def byteLength (cs : List Char) : Nat := cs.foldr (fun c n => c.utf8Size + n) 0

namespace Refusal

/-- Blames the place just before `rest`. -/
def before (fault : SyntaxFault) (rest : List Char) : Refusal := ⟨fault, byteLength rest⟩

/-- Blames the first byte of `rest`, so that the place is the one just after it; the end of the
text when nothing is left. -/
def within (fault : SyntaxFault) (rest : List Char) : Refusal := ⟨fault, byteLength rest - 1⟩

/-- Blames the end of the text. -/
def atEnd (fault : SyntaxFault) : Refusal := ⟨fault, 0⟩

end Refusal

/-- A line, counted from one, and the number of bytes before a place on it. -/
structure Position where
  line : Nat
  column : Nat
  deriving DecidableEq, Repr

/-- The position after `n` bytes of a text, starting from `at`. -/
def advance (start : Position) : Nat → List Char → Position
  | _, [] => start
  | 0, _ => start
  | n + 1, c :: cs =>
    let next : Position :=
      if c = '\n' then ⟨start.line + 1, 0⟩ else ⟨start.line, start.column + min (n + 1) c.utf8Size⟩
    advance next (n + 1 - c.utf8Size) cs

/-- The line and column of the place that is followed by `remaining` bytes of the text. -/
def locate (text : List Char) (remaining : Nat) : Position :=
  advance ⟨1, 0⟩ (byteLength text - remaining) text

/-- The message for a text that was refused. -/
def Refusal.message (r : Refusal) (text : List Char) : String :=
  let p := locate text r.remaining
  r.fault.message ++ " at line " ++ toString p.line ++ " column " ++ toString p.column

end PlcAudit.Json
