import PlcAudit.Entry.Basic
import PlcAudit.Json.Basic
import PlcAudit.Number.Shortest
import PlcAudit.Text.Quoted

/-!
# Entries from JSON

An entry is written as an object, or as an array of its fields in their order.  The first thing that
is wrong with it is reported; in an object the keys are looked at in alphabetical order, and what is
missing is noticed last.

* `EntryFault`: what is wrong with an entry, with its wording in `EntryFault.message`.
* `Entry.ofValue`: the entry that a value spells.
-/

namespace PlcAudit

open Json (Value)

/-- What stood where something else was expected. -/
inductive Found where
  | null
  | bool (b : Bool)
  | integer (n : Int)
  | float (x : Binary64)
  | string (s : String)
  | sequence
  | map
  deriving DecidableEq, Repr

/-- What a value is taken for in a message. -/
def Found.ofValue : Value → Found
  | .null => null
  | .bool b => bool b
  | .number (.int n) => integer n
  | .number (.float x) => float x
  | .string s => string s
  | .array _ => sequence
  | .object _ => map

/-- The wording of what was found. -/
def Found.message : Found → String
  | null => "null"
  | bool b => "boolean `" ++ toString b ++ "`"
  | integer n => "integer `" ++ toString n ++ "`"
  | float x => "floating point `" ++ x.text ++ "`"
  | string s => "string " ++ Text.quoted s
  | sequence => "sequence"
  | map => "map"

/-- What was expected. -/
inductive Expected where
  | entry
  | detail
  | word
  | text
  | status
  | nothing
  | singleKey
  | allFields
  | fewerElements
  deriving DecidableEq, Repr

/-- The wording of what was expected. -/
def Expected.message : Expected → String
  | entry => "struct RawEntry"
  | detail => "struct RawViolation"
  | word => "u32"
  | text => "a string"
  | status => "string or map"
  | nothing => "unit"
  | singleKey => "map with a single key"
  | allFields => "struct RawEntry with 7 elements"
  | fewerElements => "fewer elements in array"

/-- What is wrong with an entry. -/
inductive EntryFault where
  | invalidType (found : Found) (expected : Expected)
  | invalidValue (found : Found) (expected : Expected)
  | invalidLength (n : Nat) (expected : Expected)
  | unknownStatus (s : String)
  | missingField (name : String)
  deriving DecidableEq, Repr

/-- Words in backquotes, with commas between them. -/
def listed (words : List String) : String :=
  ", ".intercalate (words.map fun w => "`" ++ w ++ "`")

/-- The wording of a fault. -/
def EntryFault.message : EntryFault → String
  | invalidType found expected =>
    "invalid type: " ++ found.message ++ ", expected " ++ expected.message
  | invalidValue found expected =>
    "invalid value: " ++ found.message ++ ", expected " ++ expected.message
  | invalidLength n expected =>
    "invalid length " ++ toString n ++ ", expected " ++ expected.message
  | unknownStatus s => "unknown variant `" ++ s ++ "`, expected one of " ++ listed Status.spellings
  | missingField name => "missing field `" ++ name ++ "`"

namespace Entry

/-- Refuses a value that is of another type than expected. -/
def mistyped (expected : Expected) (v : Value) : EntryFault := .invalidType (.ofValue v) expected

/-! ## Single fields -/

/-- A natural number below `2 ^ 32`. -/
def wordOf : Value → Except EntryFault UInt32
  | .number (.int n) =>
    if 0 ≤ n ∧ n < UInt32.size then .ok (UInt32.ofNat n.toNat)
    else .error (.invalidValue (.integer n) .word)
  | v => .error (mistyped .word v)

/-- A text. -/
def textOf : Value → Except EntryFault String
  | .string s => .ok s
  | v => .error (mistyped .text v)

/-- A status by one of its spellings. -/
def statusNamed (s : String) : Except EntryFault Status :=
  match Status.ofSpelling? s with
  | some st => .ok st
  | none => .error (.unknownStatus s)

/-- A status: its spelling, or an object whose only key is the spelling and whose value is `null`.
-/
def statusOf : Value → Except EntryFault Status
  | .string s => statusNamed s
  | .object ms =>
    match (ms.map (·.1)).eraseDups with
    | [key] => do
      let st ← statusNamed key
      match Value.lookup? key ms with
      | none | some .null => return st
      | some v => throw (mistyped .nothing v)
    | _ => .error (.invalidValue .map .singleKey)
  | v => .error (mistyped .status v)

/-- A value that may be `null`. -/
def nullable (read : Value → Except EntryFault α) : Value → Except EntryFault (Option α)
  | .null => .ok none
  | v => (read v).map some

/-- The value of a key, absent when the key is. -/
def field (read : Value → Except EntryFault α) (key : String) (ms : List (String × Value)) :
    Except EntryFault (Option α) :=
  match Value.lookup? key ms with
  | none => .ok none
  | some v => (read v).map some

/-- A field that must not be absent. -/
def required (key : String) : Option α → Except EntryFault α
  | some a => .ok a
  | none => .error (.missingField key)

/-! ## Detail blocks and entries -/

/-- The element of an array at an index, absent when the array is shorter. -/
def element (read : Value → Except EntryFault α) (vs : List Value) (i : Nat) :
    Except EntryFault (Option α) :=
  match vs[i]? with
  | none => .ok none
  | some v => (read v).map some

/-- Refuses an array of more than `n` elements. -/
def atMost (n : Nat) (vs : List Value) : Except EntryFault Unit :=
  if vs.length ≤ n then .ok () else .error (.invalidLength vs.length .fewerElements)

/-- A detail block from its members, or from the array of its fields. -/
def detailOf : Value → Except EntryFault Detail
  | .object ms => do
    let line ← field (nullable wordOf) "line" ms
    let reason ← field (nullable textOf) "reason" ms
    let suggestion ← field (nullable textOf) "suggestion" ms
    return { line, reason, suggestion }
  | .array vs => do
    let line ← element (nullable wordOf) vs 0
    let reason ← element (nullable textOf) vs 1
    let suggestion ← element (nullable textOf) vs 2
    atMost 3 vs
    return { line, reason, suggestion }
  | v => .error (mistyped .detail v)

/-- An entry from the members of an object. -/
def ofMembers (ms : List (String × Value)) : Except EntryFault Entry := do
  let line ← field (nullable wordOf) "line" ms
  let reason ← field (nullable textOf) "reason" ms
  let ruleName ← field textOf "rule_name" ms
  let ruleNo ← field wordOf "rule_no" ms
  let status ← field statusOf "status" ms
  let suggestion ← field (nullable textOf) "suggestion" ms
  let detail ← field (nullable detailOf) "violation" ms
  let status ← required "status" status
  let ruleNo ← required "rule_no" ruleNo
  let ruleName ← required "rule_name" ruleName
  return { status, ruleNo, ruleName
           line := line.join, reason := reason.join, suggestion := suggestion.join
           detail := detail.join }

/-- The element of an array at an index that it must reach. -/
def requiredElement (read : Value → Except EntryFault α) (vs : List Value) (i : Nat) :
    Except EntryFault α := do
  match ← element read vs i with
  | some a => return a
  | none => throw (.invalidLength i .allFields)

/-- An entry from the array of its fields, of which the last four may be left off. -/
def ofElements (vs : List Value) : Except EntryFault Entry := do
  let status ← requiredElement statusOf vs 0
  let ruleNo ← requiredElement wordOf vs 1
  let ruleName ← requiredElement textOf vs 2
  let line ← element (nullable wordOf) vs 3
  let reason ← element (nullable textOf) vs 4
  let suggestion ← element (nullable textOf) vs 5
  let detail ← element (nullable detailOf) vs 6
  atMost 7 vs
  return { status, ruleNo, ruleName
           line := line.join, reason := reason.join, suggestion := suggestion.join
           detail := detail.join }

/-- The entry that a value spells. -/
def ofValue : Value → Except EntryFault Entry
  | .object ms => ofMembers ms
  | .array vs => ofElements vs
  | v => .error (mistyped .entry v)

end Entry

end PlcAudit
