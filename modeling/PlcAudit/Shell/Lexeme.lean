import PlcAudit.Shell.Syntax

/-!
# The words and operators of a script

* `Token`, `Lexeme`: a word or an operator, and the line that it stands in.
* `readWord`: a word with its quotes and its parts.
* `lexemes`: all lexemes of a script, with the texts that the script gives as input.
-/

namespace PlcAudit.Shell

/-- A word or an operator.  What cannot be read is kept as what is wrong with it, for the lines
before it still count. -/
inductive Token where
  | word (w : Word)
  | operator (s : Octets)
  | descriptor (n : Nat)
  | newline
  | fault (text : String)
  deriving Repr

/-- A token, and the line that it stands in. -/
structure Lexeme where
  token : Token
  line : Nat
  deriving Repr

/-! ## Brackets and quotes -/

/-- Which quotes are open. -/
inductive Quoting where
  | none
  | single
  | double
  deriving DecidableEq

/-- The text up to the bracket that closes an open one, and what follows it.  Brackets in pairs and
those in quotes do not count. -/
def enclosed (opening closing : Char) : Nat → Quoting → Octets → Option (Octets × Octets)
  | _, _, [] => none
  | depth, quoting, c :: cs =>
    let kept (depth : Nat) (quoting : Quoting) : Option (Octets × Octets) :=
      (enclosed opening closing depth quoting cs).map fun (t, r) => (c :: t, r)
    if quoting = .single then kept depth (if c = '\'' then .none else .single)
    else if c = '\\' then
      match cs with
      | [] => none
      | d :: ds =>
        (enclosed opening closing depth quoting ds).map fun (t, r) => (c :: d :: t, r)
    else if c = '"' then kept depth (if quoting = .double then .none else .double)
    else if quoting = .double then kept depth quoting
    else if c = '\'' then kept depth .single
    else if c = closing then
      match depth with
      | 0 => some ([], cs)
      | depth + 1 => kept depth quoting
    else if c = opening then kept (depth + 1) quoting
    else kept depth quoting

/-- The text up to a backquote, its own escapes taken away. -/
def backquoted (inQuotes : Bool) : Octets → Option (Octets × Octets)
  | [] => none
  | '\\' :: c :: cs =>
    (backquoted inQuotes cs).map fun (t, r) =>
      (if c = '`' ∨ c = '\\' ∨ c = '$' ∨ (inQuotes ∧ c = '"') then c :: t else '\\' :: c :: t, r)
  | c :: cs =>
    if c = '`' then some ([], cs) else (backquoted inQuotes cs).map fun (t, r) => (c :: t, r)

/-! ## Parameters -/

/-- The characters that may begin a name. -/
def isNameStart (c : Char) : Bool := c.isAlpha || c = '_'

/-- The characters that may stand in a name. -/
def isNameChar (c : Char) : Bool := c.isAlphanum || c = '_'

/-- Whether a text is the name of a variable. -/
def isName : Octets → Bool
  | [] => false
  | c :: cs => isNameStart c && cs.all isNameChar

/-- The parameters whose name is one sign. -/
def isSpecial (c : Char) : Bool := "@*#?-$!0123456789".toList.contains c

/-- The use of a parameter, from what stands after its name in braces. -/
def readUse (cs : Octets) : Option ParameterUse :=
  match cs with
  | [] => some .value
  | ':' :: '-' :: w => some (.orElse true w)
  | '-' :: w => some (.orElse false w)
  | ':' :: '=' :: w => some (.orAssign true w)
  | '=' :: w => some (.orAssign false w)
  | ':' :: '?' :: w => some (.orFail true w)
  | '?' :: w => some (.orFail false w)
  | ':' :: '+' :: w => some (.instead true w)
  | '+' :: w => some (.instead false w)
  | '%' :: '%' :: p => some (.withoutBack true p)
  | '%' :: p => some (.withoutBack false p)
  | '#' :: '#' :: p => some (.withoutFront true p)
  | '#' :: p => some (.withoutFront false p)
  | _ => none

/-- The parameter that a text in braces names. -/
def readBraced (cs : Octets) : Option Part :=
  let named (cs : Octets) : Option (Octets × Octets) :=
    match cs with
    | c :: r =>
      if isNameStart c then some (cs.takeWhile isNameChar, cs.dropWhile isNameChar)
      else if c.isDigit then some (cs.takeWhile Char.isDigit, cs.dropWhile Char.isDigit)
      else if isSpecial c then some ([c], r)
      else none
    | [] => none
  match cs with
  | '#' :: c :: r =>
    match named (c :: r) with
    | some (name, []) => some (.parameter name .length)
    | _ => (readUse (c :: r)).map (.parameter ['#'])
  | _ =>
    match named cs with
    | some (name, r) => (readUse r).map (.parameter name)
    | none => none

/-- What a dollar sign begins; `none` when it stands for itself. -/
def readDollar (cs : Octets) : Except String (Option (Part × Octets)) :=
  let command (r : Octets) : Except String (Option (Part × Octets)) :=
    match enclosed '(' ')' 0 .none r with
    | some (t, r) => .ok (some (.command t, r))
    | none => .error "Syntax error: end of file unexpected (expecting \")\")"
  match cs with
  | '(' :: '(' :: r =>
    match enclosed '(' ')' 0 .none r with
    | some (t, ')' :: r) => .ok (some (.arithmetic t, r))
    | _ => command ('(' :: r)
  | '(' :: r => command r
  | '\x7b' :: r =>
    match enclosed '\x7b' '\x7d' 0 .none r with
    | some (t, r) =>
      match readBraced t with
      | some p => .ok (some (p, r))
      | none => .error "Bad substitution"
    | none => .error "Syntax error: Missing '\x7d'"
  | c :: r =>
    if isNameStart c then
      .ok (some (.parameter (cs.takeWhile isNameChar) .value, cs.dropWhile isNameChar))
    else if isSpecial c then .ok (some (.parameter [c] .value, r))
    else .ok none
  | [] => .ok none

/-! ## Words -/

/-- A word with one more character at its end. -/
def Word.push (w : Word) (quoted : Bool) (cs : Octets) : Word :=
  match w.getLast? with
  | some (.text s, q) =>
    if q = quoted then w.dropLast ++ [(.text (s ++ cs), q)] else w ++ [(.text cs, quoted)]
  | _ => w ++ [(.text cs, quoted)]

/-- Where the text of a word ends. -/
inductive WordEnd where
  /-- At a blank or an operator. -/
  | atSeparator
  /-- At the end of the text; only what a dollar sign or a backquote begins is read. -/
  | atEndQuoted
  /-- At the end of the text, blanks and operators being part of it. -/
  | atEnd
  deriving DecidableEq

/-- Whether a character ends a word. -/
def endsWord (c : Char) : Bool := " \t\n;&|<>()".toList.contains c

/-- Reads a word.  `inQuotes` says whether double quotes are open.  `fuel` bounds the number of
characters. -/
def readWord (ending : WordEnd) : Nat → Bool → Word → Octets → Except String (Word × Octets)
  | 0, _, w, cs => .ok (w, cs)
  | fuel + 1, inQuotes, w, cs =>
    let quoted := inQuotes || ending = .atEndQuoted
    match cs with
    | [] => if inQuotes then .error "Syntax error: Unterminated quoted string" else .ok (w, [])
    | '\\' :: '\n' :: r => readWord ending fuel inQuotes w r
    | '\\' :: c :: r =>
      if quoted then
        let escapable := c = '$' ∨ c = '`' ∨ c = '\\' ∨ (c = '"' ∧ inQuotes)
        readWord ending fuel inQuotes (w.push true (if escapable then [c] else ['\\', c])) r
      else readWord ending fuel inQuotes (w.push true [c]) r
    | '$' :: r => do
      match ← readDollar r with
      | some (p, r) => readWord ending fuel inQuotes (w ++ [(p, quoted)]) r
      | none => readWord ending fuel inQuotes (w.push quoted ['$']) r
    | '`' :: r =>
      match backquoted inQuotes r with
      | some (t, r) => readWord ending fuel inQuotes (w ++ [(.command t, quoted)]) r
      | none => .error "Syntax error: EOF in backquote substitution"
    | c :: r =>
      if c = '"' ∧ ending ≠ .atEndQuoted then
        if inQuotes then readWord ending fuel false w r
        else
          -- an empty pair of quotes is a word of its own
          readWord ending fuel true (if r.head? = some '"' then w.push true [] else w) r
      else if quoted then readWord ending fuel inQuotes (w.push true [c]) r
      else if c = '\'' then
        match r.dropWhile (· ≠ '\'') with
        | _ :: rest => readWord ending fuel false (w.push true (r.takeWhile (· ≠ '\''))) rest
        | [] => .error "Syntax error: Unterminated quoted string"
      else if endsWord c ∧ ending = .atSeparator then .ok (w, cs)
      else readWord ending fuel inQuotes (w.push false [c]) r

/-- The word that a whole text spells, quoted or not. -/
def wordOf (quoted : Bool) (cs : Octets) : Except String Word :=
  (readWord (if quoted then .atEndQuoted else .atEnd) (cs.length + 1) false [] cs).map Prod.fst

/-! ## Lexemes -/

/-- The operator at the front of a text. -/
def readOperator (cs : Octets) : Option (Octets × Octets) :=
  let all : List String :=
    ["<<-", "<<", "<&", "<>", "<", ">>", ">&", ">|", ">", "&&", "&", "||", "|", ";;", ";", "(", ")"]
  match all.find? fun o => o.toList.isPrefixOf cs with
  | some o => some (o.toList, cs.drop o.length)
  | none => none

/-- The texts that a script gives as input begin after the line that asks for them. -/
structure Pending where
  delimiter : Octets
  quoted : Bool
  withoutTabs : Bool

/-- The text of a word, its quotes taken away. -/
def Word.spelled (w : Word) : Octets :=
  w.flatMap fun p => match p.1 with | .text s => s | _ => []

/-- Takes a text off the lines of a script. -/
def Pending.take (p : Pending) : List (Octets × Bool) → Octets × List (Octets × Bool)
  | [] => ([], [])
  | (l, ended) :: ls =>
    let l := if p.withoutTabs then l.dropWhile (· = '\t') else l
    if l = p.delimiter then ([], ls)
    else
      let (t, rest) := p.take ls
      (l ++ (if ended then '\n' :: t else t), rest)

/-- The words of the texts that a script gives as input, and what follows them. -/
def takePending (ps : List Pending) (cs : Octets) : List Word × Octets :=
  let (ws, ls) := ps.foldl
    (fun (ws, ls) p =>
      let (t, ls) := p.take ls
      let w : Word :=
        if p.quoted then [(.text t, true)] else (wordOf true t).toOption.getD [(.text t, true)]
      (ws ++ [w], ls))
    (([] : List Word), splitLines cs)
  (ws, ls.flatMap fun (l, ended) => if ended then l ++ ['\n'] else l)

/-- How many lines end in what was read of a text. -/
def linesRead (earlier later : Octets) : Nat :=
  (earlier.take (earlier.length - later.length)).count '\n'

/-- The lexemes of a script from a line on, and its texts given as input.  `awaiting` is set after
the operator of such a text. -/
def lexemesFrom : Nat → Nat → List Pending → Option Bool → Octets → List Lexeme × List Word
  | 0, _, _, _, _ => ([], [])
  | fuel + 1, line, pending, awaiting, cs =>
    let cs := cs.dropWhile fun c => c = ' ' || c = '\t'
    match cs with
    | [] => ([], (takePending pending []).1)
    | '\\' :: '\n' :: r => lexemesFrom fuel (line + 1) pending awaiting r
    | '#' :: r => lexemesFrom fuel line pending awaiting (r.dropWhile (· ≠ '\n'))
    | '\n' :: r =>
      let (ws, rest) := takePending pending r
      let (ls, more) := lexemesFrom fuel (line + 1 + linesRead r rest) [] none rest
      (⟨.newline, line⟩ :: ls, ws ++ more)
    | _ =>
      match readOperator cs with
      | some (o, r) =>
        let awaiting := if o = "<<".toList then some false else if o = "<<-".toList then some true
          else none
        let (ls, ws) := lexemesFrom fuel line pending awaiting r
        (⟨.operator o, line⟩ :: ls, ws)
      | none =>
        match readWord .atSeparator (cs.length + 1) false [] cs with
        | .error text => ([⟨.fault text, line + cs.count '\n'⟩], [])
        | .ok (w, r) =>
          let last := line + linesRead cs r
          match awaiting, w.plain?.bind toNat?, r.head? with
          | some withoutTabs, _, _ =>
            let p : Pending := ⟨w.spelled, w.any Prod.snd, withoutTabs⟩
            let (ls, ws) := lexemesFrom fuel last (pending ++ [p]) none r
            (⟨.word w, last⟩ :: ls, ws)
          | none, some n, some '<' | none, some n, some '>' =>
            let (ls, ws) := lexemesFrom fuel last pending none r
            (⟨.descriptor n, last⟩ :: ls, ws)
          | none, _, _ =>
            let (ls, ws) := lexemesFrom fuel last pending none r
            (⟨.word w, last⟩ :: ls, ws)

/-- The lexemes of a script, and its texts given as input. -/
def lexemes (cs : Octets) : List Lexeme × List Word :=
  lexemesFrom (cs.length + 1) 1 [] none cs

end PlcAudit.Shell
