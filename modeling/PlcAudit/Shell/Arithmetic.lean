import PlcAudit.Shell.Octets

/-!
# Arithmetic in scripts

* `evaluate`: the value of an expression over integers and variables.

Operators bind as usual, and those of one level group from the left.
-/

namespace PlcAudit.Shell.Arithmetic

/-- A number, a name, or an operator. -/
inductive Token where
  | number (n : Int)
  | name (s : Octets)
  | op (s : String)
  deriving DecidableEq, Repr

/-- The operators, the longer ones first. -/
def operators : List String :=
  ["<<", ">>", "<=", ">=", "==", "!=", "&&", "||", "+", "-", "*", "/", "%", "<", ">", "!", "~", "&",
    "|", "^", "(", ")", "?", ":"]

/-- The tokens of an expression.  `fuel` bounds their number. -/
def tokens : Nat → Octets → Option (List Token)
  | 0, _ => none
  | fuel + 1, cs =>
    match cs.dropWhile Char.isWhitespace with
    | [] => some []
    | c :: r =>
      let cs := c :: r
      if c.isDigit then do
        let ts ← tokens fuel (cs.dropWhile Char.isAlphanum)
        return .number ((toNat? (cs.takeWhile Char.isAlphanum)).getD 0) :: ts
      else if c.isAlpha ∨ c = '_' then do
        let inName (c : Char) : Bool := c.isAlphanum || c = '_'
        let ts ← tokens fuel (cs.dropWhile inName)
        return .name (cs.takeWhile inName) :: ts
      else if c = '$' then tokens fuel r
      else
        match operators.find? fun o => o.toList.isPrefixOf cs with
        | some o => do
          let ts ← tokens fuel (cs.drop o.length)
          return .op o :: ts
        | none => none

/-- The levels of operators with two operands, the loosest first. -/
def levels : List (List String) :=
  [["||"], ["&&"], ["|"], ["^"], ["&"], ["==", "!="], ["<=", ">=", "<", ">"], ["<<", ">>"],
    ["+", "-"], ["*", "/", "%"]]

/-- What a comparison gives. -/
def truth (b : Bool) : Int := if b then 1 else 0

/-- The value of an operator, `none` for a division by zero. -/
def apply (op : String) (a b : Int) : Option Int :=
  match op with
  | "||" => some (truth (a ≠ 0 || b ≠ 0))
  | "&&" => some (truth (a ≠ 0 && b ≠ 0))
  | "|" => some ((BitVec.ofInt 64 a ||| BitVec.ofInt 64 b).toInt)
  | "^" => some ((BitVec.ofInt 64 a ^^^ BitVec.ofInt 64 b).toInt)
  | "&" => some ((BitVec.ofInt 64 a &&& BitVec.ofInt 64 b).toInt)
  | "==" => some (truth (a = b))
  | "!=" => some (truth (a ≠ b))
  | "<=" => some (truth (a ≤ b))
  | ">=" => some (truth (b ≤ a))
  | "<" => some (truth (a < b))
  | ">" => some (truth (b < a))
  | "<<" => some (a * Nat.pow 2 (b.toNat % 64))
  | ">>" => some (a / Nat.pow 2 (b.toNat % 64))
  | "+" => some (a + b)
  | "-" => some (a - b)
  | "*" => some (a * b)
  | "/" => if b = 0 then none else some (a.tdiv b)
  | "%" => if b = 0 then none else some (a.tmod b)
  | _ => none

mutual

/-- Reads an expression of a level. -/
def atLevel (value : Octets → Int) :
    Nat → List (List String) → List Token → Option (Int × List Token)
  | 0, _, _ => none
  | fuel + 1, [], ts => operand value fuel ts
  | fuel + 1, ops :: tighter, ts => do
    let (a, ts) ← atLevel value fuel tighter ts
    more value fuel ops tighter a ts

/-- Reads the operators of a level after the first operand. -/
def more (value : Octets → Int) :
    Nat → List String → List (List String) → Int → List Token → Option (Int × List Token)
  | 0, _, _, _, _ => none
  | fuel + 1, ops, tighter, a, ts =>
    match ts with
    | .op o :: rest =>
      if ops.contains o then do
        let (b, ts) ← atLevel value fuel tighter rest
        more value fuel ops tighter (← apply o a b) ts
      else some (a, ts)
    | _ => some (a, ts)

/-- Reads an operand. -/
def operand (value : Octets → Int) : Nat → List Token → Option (Int × List Token)
  | 0, _ => none
  | fuel + 1, ts =>
    match ts with
    | .number n :: ts => some (n, ts)
    | .name s :: ts => some (value s, ts)
    | .op "-" :: ts => (operand value fuel ts).map fun (n, ts) => (-n, ts)
    | .op "+" :: ts => operand value fuel ts
    | .op "!" :: ts => (operand value fuel ts).map fun (n, ts) => (truth (n = 0), ts)
    | .op "~" :: ts => (operand value fuel ts).map fun (n, ts) => (-n - 1, ts)
    | .op "(" :: ts => do
      match ← atLevel value fuel levels ts with
      | (n, .op ")" :: ts) => return (n, ts)
      | _ => none
    | _ => none

end

/-- The value of an expression, `none` when it has none. -/
def evaluate (value : Octets → Int) (cs : Octets) : Option Int := do
  let ts ← tokens (cs.length + 1) cs
  if ts.isEmpty then return 0
  match ← atLevel value (16 * (ts.length + 2)) levels ts with
  | (n, []) => return n
  | (c, .op "?" :: ts) =>
    let (a, ts) ← atLevel value (16 * (ts.length + 2)) levels ts
    match ts with
    | .op ":" :: ts =>
      match ← atLevel value (16 * (ts.length + 2)) levels ts with
      | (b, []) => return if c ≠ 0 then a else b
      | _ => none
    | _ => none
  | _ => none

end PlcAudit.Shell.Arithmetic
