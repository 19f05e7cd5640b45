import PlcAudit.Finding.Basic

/-!
# Signatures

One text per finding that tells it apart from every other.  Texts inside a signature carry their
length in bytes, so a separator inside a text is not taken for one, and an absent text is written
differently from an empty one.

* `Finding.signature`: the signature.
-/

namespace PlcAudit.Finding

/-- An optional text with its length in bytes in front. -/
def signedText : Option String → String
  | none => "-"
  | some t => toString t.utf8ByteSize ++ ":" ++ t

/-- An optional line. -/
def signedLine : Option UInt32 → String
  | none => "-"
  | some n => toString n

/-- The text that stands for a finding: all six fields with bars between them. -/
def signature (f : Finding) : String :=
  f.status.spelling ++ "|" ++ toString f.ruleNo ++ "|" ++ signedText (some f.ruleName) ++ "|" ++
    signedLine f.line ++ "|" ++ signedText f.reason ++ "|" ++ signedText f.suggestion

end PlcAudit.Finding
