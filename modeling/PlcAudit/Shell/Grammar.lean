import PlcAudit.Shell.Lexeme

/-!
# Reading scripts

A script is read one complete command at a time, for what comes before a fault is still carried out.

* `Script`: what is left of a script.
* `Script.next`: its next command.
-/

namespace PlcAudit.Shell

/-- What is left of a script: its lexemes, and the texts that it gives as input. -/
structure Script where
  lexemes : List Lexeme
  texts : List Word
  /-- The line at which the script ends. -/
  lastLine : Nat

/-- Where and how a script is against the grammar. -/
structure SyntaxFault where
  line : Nat
  text : String

/-- Reading a part of a script. -/
abbrev Reading := StateT Script (Except SyntaxFault)

/-- The words that the grammar keeps for itself. -/
def reservedWords : List String :=
  ["if", "then", "else", "elif", "fi", "do", "done", "case", "esac", "while", "until", "for", "in",
    "\x7b", "\x7d", "!"]

/-- A symbol of the grammar: an operator or a reserved word. -/
def Token.symbol? : Token → Option String
  | .operator s => some (String.ofList s)
  | .word w =>
    match w.plain? with
    | some s => if reservedWords.contains (String.ofList s) then some (String.ofList s) else none
    | none => none
  | _ => none

/-- The name of a token in a complaint. -/
def Token.title : Option Token → String
  | none => "end of file"
  | some .newline => "newline"
  | some (.descriptor _) => "redirection"
  | some (.fault text) => text
  | some (.operator s) =>
    if (String.ofList s).front = '<' ∨ (String.ofList s).front = '>' then "redirection"
    else "\"" ++ String.ofList s ++ "\""
  | some (.word w) =>
    match (Token.word w).symbol? with
    | some s => "\"" ++ s ++ "\""
    | none => "word"

namespace Reading

/-- The next token. -/
def peek : Reading (Option Token) := fun s => .ok (s.lexemes.head?.map Lexeme.token, s)

/-- The symbol that comes next. -/
def peekSymbol : Reading (Option String) := do return (← peek).bind Token.symbol?

/-- Goes on to the next token. -/
def advance : Reading Unit :=
  modify fun s => { s with lexemes := s.lexemes.tail }

/-- The line of the next token. -/
def line : Reading Nat := do
  let s ← get
  return (s.lexemes.head?.map Lexeme.line).getD s.lastLine

/-- Refuses the next token. -/
def refuse {α : Type} (expected : Option String) : Reading α := do
  let n ← line
  match ← peek with
  | some (.fault text) => throw ⟨n, text⟩
  | t =>
    throw ⟨n, "Syntax error: " ++ Token.title t ++ " unexpected" ++ match expected with
      | some e => " (expecting \"" ++ e ++ "\")"
      | none => ""⟩

/-- Takes a symbol that must come next. -/
def expect (symbol : String) : Reading Unit := do
  if (← peekSymbol) = some symbol then advance else refuse (some symbol)

/-- Passes the ends of lines. -/
def skipNewlines : Nat → Reading Unit
  | 0 => return
  | fuel + 1 => do
    match ← peek with
    | some .newline => do advance; skipNewlines fuel
    | _ => return

/-- The direction of a redirecting operator, and its usual descriptor. -/
def directionOf? (operator : Octets) : Option (Direction × Nat) :=
  match String.ofList operator with
  | "<" => some (.from, 0)
  | "<<" | "<<-" => some (.here, 0)
  | "<&" => some (.same, 0)
  | "<>" => some (.both, 0)
  | ">" | ">|" => some (.into, 1)
  | ">>" => some (.after, 1)
  | ">&" => some (.same, 1)
  | _ => none

/-- Reads a redirection, if one comes next. -/
def redirect? : Reading (Option Redirect) := do
  let descriptor ← match ← peek with
    | some (.descriptor n) => do advance; pure (some n)
    | _ => pure none
  match ← peek with
  | some (.operator o) =>
    match directionOf? o with
    | none => return none
    | some (direction, usual) => do
      advance
      match ← peek with
      | some (.word w) => do
        advance
        let target ← if direction = .here then takeText w else pure w
        return some ⟨descriptor.getD usual, direction, target⟩
      | _ => refuse none
  | _ => return none
where
  /-- Takes the next text that the script gives as input. -/
  takeText (w : Word) : Reading Word := fun s =>
    match s.texts with
    | t :: ts => .ok (t, { s with texts := ts })
    | [] => .ok (w, s)

/-- Reads redirections as long as they come. -/
def redirects : Nat → Reading (List Redirect)
  | 0 => return []
  | fuel + 1 => do
    match ← redirect? with
    | some r => return r :: (← redirects fuel)
    | none => return []

/-- The name and the value of a word that assigns. -/
def assignment? (w : Word) : Option (Octets × Word) :=
  match w with
  | (.text s, false) :: rest =>
    let name := s.takeWhile (· ≠ '=')
    match s.dropWhile (· ≠ '=') with
    | _ :: value =>
      if isName name then some (name, if value.isEmpty then rest else (.text value, false) :: rest)
      else none
    | [] => none
  | _ => none

/-- Reads the words and redirections of a simple command. -/
def simpleParts : Nat → Reading (List Word × List Redirect)
  | 0 => return ([], [])
  | fuel + 1 => do
    match ← redirect? with
    | some r =>
      let (ws, rs) ← simpleParts fuel
      return (ws, r :: rs)
    | none =>
      match ← peek with
      | some (.word w) => do
        advance
        let (ws, rs) ← simpleParts fuel
        return (w :: ws, rs)
      | _ => return ([], [])

/-- The words at the front that assign, and the others. -/
def splitAssignments : List Word → List (Octets × Word) × List Word
  | [] => ([], [])
  | w :: ws =>
    match assignment? w with
    | some a =>
      let (as, rest) := splitAssignments ws
      (a :: as, rest)
    | none => ([], w :: ws)

/-- Reads the words of a list up to the end of its line. -/
def wordsOfLine : Nat → Reading (List Word)
  | 0 => return []
  | fuel + 1 => do
    match ← peek with
    | some (.word w) => do advance; return w :: (← wordsOfLine fuel)
    | _ => return []

/-- Reads the patterns of a clause up to its parenthesis. -/
def patterns : Nat → Reading (List Word)
  | 0 => return []
  | fuel + 1 => do
    match ← peek with
    | some (.word w) => do
      advance
      match ← peekSymbol with
      | some "|" => do advance; return w :: (← patterns fuel)
      | _ => do expect ")"; return [w]
    | _ => refuse (some ")")

/-- The symbols that end a list of commands. -/
def closers : List String := ["then", "else", "elif", "fi", "do", "done", "esac", "\x7d", ")", ";;"]

mutual

/-- Reads commands up to a symbol that closes them, or to the end; there must be one. -/
def commands : Nat → Reading Command
  | 0 => refuse none
  | fuel + 1 => do
    skipNewlines fuel
    match ← peek with
    | none => return .nothing
    | _ => commandThenMore fuel

/-- Reads commands up to a symbol that closes them, or to the end, if there are any. -/
def moreCommands : Nat → Reading Command
  | 0 => refuse none
  | fuel + 1 => do
    skipNewlines fuel
    match ← peek, ← peekSymbol with
    | none, _ => return .nothing
    | _, some s => if closers.contains s then return .nothing else commandThenMore fuel
    | _, none => commandThenMore fuel

/-- Reads a command and those that follow it. -/
def commandThenMore : Nat → Reading Command
  | 0 => refuse none
  | fuel + 1 => do
    let c ← andOr fuel
    match ← peek, ← peekSymbol with
    | some .newline, _ => return .inOrder c (← moreCommands fuel)
    | _, some ";" => do advance; return .inOrder c (← moreCommands fuel)
    | _, some "&" => do advance; return .inOrder (.inner c) (← moreCommands fuel)
    | _, _ => return c

/-- Reads commands that are joined by what became of the one before. -/
def andOr : Nat → Reading Command
  | 0 => refuse none
  | fuel + 1 => do andOrMore fuel (← pipeline fuel)

/-- What follows a pipeline in a list of alternatives. -/
def andOrMore : Nat → Command → Reading Command
  | 0, _ => refuse none
  | fuel + 1, c => do
    match ← peekSymbol with
    | some "&&" => do
      advance; skipNewlines fuel
      andOrMore fuel (.andThen c (← pipeline fuel))
    | some "||" => do
      advance; skipNewlines fuel
      andOrMore fuel (.orElse c (← pipeline fuel))
    | _ => return c

/-- Reads commands that feed each other. -/
def pipeline : Nat → Reading Command
  | 0 => refuse none
  | fuel + 1 => do
    if (← peekSymbol) = some "!" then do
      advance
      return .negate (← pipeline fuel)
    else pipelineMore fuel (← command fuel)

/-- What follows a command in a pipeline. -/
def pipelineMore : Nat → Command → Reading Command
  | 0, _ => refuse none
  | fuel + 1, c => do
    if (← peekSymbol) = some "|" then do
      advance; skipNewlines fuel
      pipelineMore fuel (.pipe c (← command fuel))
    else return c

/-- Reads one command. -/
def command : Nat → Reading Command
  | 0 => refuse none
  | fuel + 1 => do
    let n ← line
    match ← peekSymbol with
    | some "if" => do advance; withRedirects fuel n (← choice fuel)
    | some "while" => do advance; withRedirects fuel n (← loop fuel true)
    | some "until" => do advance; withRedirects fuel n (← loop fuel false)
    | some "for" => do advance; withRedirects fuel n (← each fuel)
    | some "case" => do advance; withRedirects fuel n (← select fuel)
    | some "\x7b" => do
      advance
      let c ← commands fuel
      expect "\x7d"
      withRedirects fuel n c
    | some "(" => do
      advance
      let c ← commands fuel
      expect ")"
      withRedirects fuel n (.inner c)
    | some s => if s.front = '<' ∨ s.front = '>' then simple fuel n else refuse none
    | none =>
      match ← peek with
      | some (.word _) | some (.descriptor _) => simple fuel n
      | _ => refuse none

/-- Reads the redirections after a command. -/
def withRedirects : Nat → Nat → Command → Reading Command
  | 0, _, c => return c
  | fuel + 1, n, c => do
    match ← redirects fuel with
    | [] => return c
    | rs => return .redirected n c rs

/-- Reads a simple command, or the definition of a function. -/
def simple : Nat → Nat → Reading Command
  | 0, _ => refuse none
  | fuel + 1, n => do
    let (ws, rs) ← simpleParts fuel
    match ws, rs, ← peekSymbol with
    | [w], [], some "(" => do
      advance
      expect ")"
      skipNewlines fuel
      match w.plain? with
      | some name => return .define name (← command fuel)
      | none => refuse none
    | _, _, _ =>
      let (as, ws) := splitAssignments ws
      return .simple n as ws rs

/-- Reads a choice after its first word. -/
def choice : Nat → Reading Command
  | 0 => refuse none
  | fuel + 1 => do
    let condition ← commands fuel
    expect "then"
    let body ← commands fuel
    match ← peekSymbol with
    | some "elif" => do advance; return .choice condition body (← choice fuel)
    | some "else" => do
      advance
      let otherwise ← commands fuel
      expect "fi"
      return .choice condition body otherwise
    | _ => do expect "fi"; return .choice condition body .nothing

/-- Reads a loop after its first word. -/
def loop : Nat → Bool → Reading Command
  | 0, _ => refuse none
  | fuel + 1, wanted => do
    let condition ← commands fuel
    expect "do"
    let body ← commands fuel
    expect "done"
    return .loop wanted condition body

/-- Reads a loop over words after its first word. -/
def each : Nat → Reading Command
  | 0 => refuse none
  | fuel + 1 => do
    match ← peek with
    | some (.word w) => do
      advance
      skipNewlines fuel
      let words ← match ← peekSymbol with
        | some "in" => do advance; pure (some (← wordsOfLine fuel))
        | _ => pure none
      if (← peekSymbol) = some ";" then advance
      skipNewlines fuel
      expect "do"
      let body ← commands fuel
      expect "done"
      return .each w.spelled words body
    | _ => refuse none

/-- Reads a selection after its first word. -/
def select : Nat → Reading Command
  | 0 => refuse none
  | fuel + 1 => do
    match ← peek with
    | some (.word w) => do
      advance
      skipNewlines fuel
      expect "in"
      let cs ← clauses fuel
      expect "esac"
      return .select w cs
    | _ => refuse none

/-- Reads the clauses of a selection. -/
def clauses : Nat → Reading (List (List Word × Command))
  | 0 => refuse none
  | fuel + 1 => do
    skipNewlines fuel
    match ← peekSymbol with
    | some "esac" => return []
    | s => do
      if s = some "(" then advance
      let ps ← patterns fuel
      let body ← moreCommands fuel
      if (← peekSymbol) = some ";;" then do
        advance
        return (ps, body) :: (← clauses fuel)
      else if (← peekSymbol) = some "esac" then return [(ps, body)]
      else refuse (some ";;")

end

end Reading

/-- The script that a text spells. -/
def Script.ofText (cs : Octets) : Script :=
  let (ls, ts) := Shell.lexemes cs
  { lexemes := ls, texts := ts, lastLine := 1 + cs.count '\n' }

/-- The next complete command of a script, `none` at its end, and the script after it. -/
def Script.next (s : Script) : Except SyntaxFault (Option Command × Script) :=
  let fuel := 16 * (s.lexemes.length + 4)
  let read : Reading (Option Command) := do
    Reading.skipNewlines fuel
    match ← Reading.peek with
    | none => return none
    | _ => return some (← line fuel)
  read s
where
  /-- Reads the commands of a line. -/
  line : Nat → Reading Command
    | 0 => Reading.refuse none
    | fuel + 1 => do
      let c ← Reading.andOr fuel
      match ← Reading.peek, ← Reading.peekSymbol with
      | some .newline, _ | none, _ => return c
      | _, some ";" => do Reading.advance; return .inOrder c (← rest fuel)
      | _, some "&" => do Reading.advance; return .inOrder (.inner c) (← rest fuel)
      | _, _ => Reading.refuse none
  rest (fuel : Nat) : Reading Command := do
    match ← Reading.peek with
    | some .newline | none => return .nothing
    | _ => line fuel

end PlcAudit.Shell
