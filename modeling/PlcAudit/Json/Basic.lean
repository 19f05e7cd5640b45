import PlcAudit.Number.Binary64

/-!
# JSON values

The values that an engine writes and a report is written as.  An object keeps its members in the
order in which they were written, a repeated key included; `Value.member?` looks up the last of
them, which is the one that counts.

* `Number`: a whole number of at most 64 bits, or a double.
* `Value`: a JSON value.
* `Value.member?`: the value of a key.
* `Value.kind`: what a value is called in a message.
-/

namespace PlcAudit.Json

/-- A number as it was read: whole if it was written without fraction and exponent and fits in 64
bits, signed or unsigned, and a double otherwise. -/
inductive Number where
  | int (n : Int)
  | float (x : Binary64)
  deriving DecidableEq, Repr, Inhabited

/-- A JSON value. -/
inductive Value where
  | null
  | bool (b : Bool)
  | number (n : Number)
  | string (s : String)
  | array (items : List Value)
  | object (members : List (String × Value))
  deriving Repr, Inhabited

namespace Value

/-- A whole number. -/
def ofNat (n : Nat) : Value := .number (.int n)

/-- A text, or `null` when there is none. -/
def ofOption (f : α → Value) : Option α → Value
  | none => .null
  | some a => f a

/-- The last value written for a key among the members of an object. -/
def lookup? (key : String) (members : List (String × Value)) : Option Value :=
  (members.reverse.find? fun m => m.1 == key).map (·.2)

/-- The value of a key, if the value is an object that has it. -/
def member? (key : String) : Value → Option Value
  | .object members => lookup? key members
  | _ => none

/-- The text of a string value. -/
def asString? : Value → Option String
  | .string s => some s
  | _ => none

/-- Whether a value is an array. -/
def isArray : Value → Bool
  | .array _ => true
  | _ => false

/-- Whether a value is an object. -/
def isObject : Value → Bool
  | .object _ => true
  | _ => false

/-- What a value is called when another one was expected. -/
def kind : Value → String
  | .null => "null"
  | .bool _ => "a boolean"
  | .number _ => "a number"
  | .string _ => "a string"
  | .array _ => "an array"
  | .object _ => "an object"

@[simp] theorem lookup?_nil (key : String) : lookup? key [] = none := rfl

/-- A member written later hides the ones before it. -/
theorem lookup?_append (key : String) (ms ns : List (String × Value)) :
    lookup? key (ms ++ ns) = (lookup? key ns).or (lookup? key ms) := by
  simp only [lookup?, List.reverse_append, List.find?_append]
  cases ns.reverse.find? fun m => m.1 == key <;> rfl

end Value

end PlcAudit.Json
