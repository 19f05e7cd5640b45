import PlcAudit.Toml.Scalar
import PlcAudit.Toml.Table
import PlcAudit.Toml.Text

/-!
# Reading TOML

A text is a sequence of lines, each of which is empty, opens a table, or gives a key its value.  The
lines are read one by one into statements, and the statements are carried out in order on a table
that is empty at first.

* `readKey`: a key, with dots between its parts.
* `readValue`: a value.
* `readStatements`: the statements of a text.
* `parse`: the outermost table of a text, or `none` when the text is refused.

Two limits belong to the format accepted here: a key has fewer than eighty parts, and fewer than
eighty brackets and braces are open at once.
-/

namespace PlcAudit.Toml

/-! ## Keys -/

/-- What is left after blanks. -/
def skipSpace (cs : List Char) : List Char := cs.dropWhile isSpace

/-- The characters of a key without quotes. -/
def isBareChar (c : Char) : Bool := c.isAlphanum || c = '_' || c = '-'

/-- One part of a key. -/
def readPart (cs : List Char) : Option (String × List Char) :=
  match cs with
  | '"' :: _ | '\'' :: _ => (readShortString cs).map fun (s, r) => (String.ofList s, r)
  | _ =>
    match cs.takeWhile isBareChar with
    | [] => none
    | s => some (String.ofList s, cs.dropWhile isBareChar)

/-- The parts of a key, with blanks around each of them.  `fuel` bounds their number. -/
def readParts : Nat → List Char → Option (List String × List Char)
  | 0, _ => none
  | fuel + 1, cs => do
    let (s, r) ← readPart (skipSpace cs)
    match skipSpace r with
    | '.' :: r => do
      let (ss, r) ← readParts fuel r
      return (s :: ss, r)
    | r => return ([s], r)

/-- The limit on the parts of a key and on the brackets that are open at once. -/
def limit : Nat := 80

/-- A key. -/
def readKey (cs : List Char) : Option (List String × List Char) := readParts (limit - 1) cs

/-! ## Values -/

/-- What is left after blanks, line ends and comments.  A carriage return ends a line only before a
line feed, and a comment holds no other control character than a tab. -/
def skipGap (inComment : Bool) : List Char → List Char
  | [] => []
  | c :: r =>
    if c = '\n' then skipGap false r
    else if c = '\r' ∧ r.head? = some '\n' then skipGap inComment r
    else if inComment then if isPlain c then skipGap true r else c :: r
    else if isSpace c then skipGap false r
    else if c = '#' then skipGap true r
    else c :: r

mutual

/-- A value.  `fuel` bounds the calls, and `depth` is the number of brackets and braces that may
still be opened. -/
def readValue : Nat → Nat → List Char → Option (Value × List Char)
  | 0, _, _ => none
  | fuel + 1, depth, cs =>
    match cs with
    | [] => none
    | c :: r =>
      if c = '"' ∨ c = '\'' then
        (readString cs).map fun (s, r) => (.string (String.ofList s), r)
      else if c = '[' then
        if depth = 0 then none
        else
          match skipGap false r with
          | ']' :: r => some (.array [], r)
          | r => (readItems fuel (depth - 1) [] r).map fun (vs, r) => (.array vs, r)
      else if c = '{' then
        if depth = 0 then none
        else
          match skipSpace r with
          | '}' :: r => some (.table .inline [], r)
          | r => (readPairs fuel (depth - 1) [] r).map fun (es, r) => (.table .inline es, r)
      else readScalar cs

/-- The items of an array from the next one to the closing bracket.  `acc` holds the items read so
far, the last one first. -/
def readItems : Nat → Nat → List Value → List Char → Option (List Value × List Char)
  | 0, _, _, _ => none
  | fuel + 1, depth, acc, cs =>
    match readValue fuel depth cs with
    | none => none
    | some (v, r) =>
      match skipGap false r with
      | ']' :: r => some ((v :: acc).reverse, r)
      | ',' :: r =>
        match skipGap false r with
        | ']' :: r => some ((v :: acc).reverse, r)
        | r => readItems fuel depth (v :: acc) r
      | _ => none

/-- The keys of a table between braces from the next one to the closing brace. -/
def readPairs : Nat → Nat → Entries → List Char → Option (Entries × List Char)
  | 0, _, _, _ => none
  | fuel + 1, depth, es, cs =>
    match readKey cs with
    | some (path, '=' :: r) =>
      match readValue fuel depth (skipSpace r) with
      | none => none
      | some (v, r) =>
        match assign path v es with
        | none => none
        | some es =>
          match skipSpace r with
          | '}' :: r => some (es, r)
          | ',' :: r => readPairs fuel depth es r
          | _ => none
    | _ => none

end

/-! ## Texts -/

/-- What a line says. -/
inductive Statement where
  | header (path : List String)
  | arrayHeader (path : List String)
  | assign (path : List String) (value : Value)
  deriving Repr

/-- The end of a line, after blanks and a comment. -/
def endLine (cs : List Char) : Option (List Char) :=
  let r := match skipSpace cs with
    | '#' :: r => r.dropWhile isPlain
    | r => r
  match r with
  | [] => some []
  | '\n' :: r => some r
  | '\r' :: '\n' :: r => some r
  | _ => none

/-- The statement of a line that is not empty, up to the end of what it says. -/
def readStatement (fuel : Nat) (cs : List Char) : Option (Statement × List Char) :=
  match cs with
  | '[' :: '[' :: r => do
    match ← readKey r with
    | (path, ']' :: ']' :: r) => return (.arrayHeader path, r)
    | _ => none
  | '[' :: r => do
    match ← readKey r with
    | (path, ']' :: r) => return (.header path, r)
    | _ => none
  | cs => do
    match ← readKey cs with
    | (path, '=' :: r) => do
      let (v, r) ← readValue fuel (limit - 1) (skipSpace r)
      return (.assign path v, r)
    | _ => none

/-- The statements of the rest of a text, one line after the other. -/
def readLines (valueFuel : Nat) : Nat → List Char → Option (List Statement)
  | 0, _ => none
  | fuel + 1, cs => do
    match skipSpace cs with
    | [] => return []
    | '\n' :: r => readLines valueFuel fuel r
    | '\r' :: '\n' :: r => readLines valueFuel fuel r
    | '#' :: r => do readLines valueFuel fuel (← endLine ('#' :: r))
    | r => do
      let (s, r) ← readStatement valueFuel r
      let ss ← readLines valueFuel fuel (← endLine r)
      return s :: ss

/-- The statements of a text, which may begin with a byte order mark. -/
def readStatements (cs : List Char) : Option (List Statement) :=
  let cs := match cs with
    | '\ufeff' :: r => r
    | r => r
  readLines (2 * cs.length + 2) (cs.length + 1) cs

/-- Carries out a statement, after which further keys go to the table at a place. -/
def Statement.apply : List String × Entries → Statement → Option (List String × Entries)
  | (_, es), .header path => (openTable path es).map (path, ·)
  | (_, es), .arrayHeader path => (openElement path es).map (path, ·)
  | (here, es), .assign path v => (assignAt here path v es).map (here, ·)

/-- The outermost table of a text. -/
def parse (s : String) : Option Entries := do
  let ss ← readStatements s.toList
  let (_, es) ← ss.foldlM Statement.apply ([], [])
  return es

end PlcAudit.Toml
