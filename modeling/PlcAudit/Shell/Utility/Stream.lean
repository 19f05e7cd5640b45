import PlcAudit.Shell.Regex
import PlcAudit.Shell.Utility.Lines

/-!
# Editing a stream

`sed` goes through the lines of its input and applies its commands to each: substituting,
exchanging, deleting and printing.

* `StreamCommand`: a command with the lines that it applies to.
* `readCommands`: the commands that a script spells.
* `sed`: the utility.
-/

namespace PlcAudit.Shell.Utility

/-- Lines that a command may name. -/
inductive Address where
  | line (n : Nat)
  | last
  | like (r : Regex)
  deriving Repr

/-- What a command does to a line. -/
inductive Edit where
  | substitute (r : Regex) (replacement : Octets) (which : Nat) (all printed : Bool)
  | exchange (source target : Octets)
  | delete
  | print
  | quit
  | insertBefore (text : Octets)
  | insertAfter (text : Octets)
  deriving Repr

/-- A command with the lines that it applies to: all, those of one address, or the ranges between
two; `negated` turns that round. -/
structure StreamCommand where
  first : Option Address
  second : Option Address
  negated : Bool
  edit : Edit
  deriving Repr

/-! ## Reading a script -/

/-- Reads up to a delimiter.  A backslash before the delimiter is dropped, any other is kept. -/
def readDelimited (delimiter : Char) : Octets → Option (Octets × Octets)
  | [] => none
  | '\\' :: c :: cs =>
    (readDelimited delimiter cs).map fun (t, r) =>
      (if c = delimiter then c :: t else '\\' :: c :: t, r)
  | c :: cs =>
    if c = delimiter then some ([], cs)
    else (readDelimited delimiter cs).map fun (t, r) => (c :: t, r)

/-- Reads an address. -/
def readAddress (extended : Bool) (cs : Octets) : Option (Option Address × Octets) :=
  match cs with
  | '$' :: r => some (some .last, r)
  | '/' :: r => do
    let (t, r) ← readDelimited '/' r
    return (some (.like (← Regex.parse? extended t)), r)
  | _ =>
    let digits := cs.takeWhile Char.isDigit
    match toNat? digits with
    | some n => some (some (.line n), cs.dropWhile Char.isDigit)
    | none => some (none, cs)

/-- The flags after a substitution: which match, whether all of them, whether to print, whether
without a difference of case. -/
structure Flags where
  which : Nat := 1
  all : Bool := false
  print : Bool := false
  caseless : Bool := false

/-- The flags of a substitution. -/
def readFlags (f : Flags) : Octets → Flags × Octets
  | [] => (f, [])
  | c :: cs =>
    if c = 'g' then readFlags { f with all := true } cs
    else if c = 'p' then readFlags { f with print := true } cs
    else if c = 'I' ∨ c = 'i' then readFlags { f with caseless := true } cs
    else if c.isDigit then readFlags { f with which := c.toNat - '0'.toNat } cs
    else (f, c :: cs)

/-- The text of an insertion, up to the end of its line. -/
def readInserted (cs : Octets) : Octets × Octets :=
  let cs := cs.dropWhile (· = ' ')
  let cs := match cs with
    | '\\' :: '\n' :: r => r
    | '\\' :: r => r.dropWhile (· = ' ')
    | r => r
  (cs.takeWhile (· ≠ '\n'), cs.dropWhile (· ≠ '\n'))

/-- Reads what a command does. -/
def readEdit (extended : Bool) (cs : Octets) : Option (Edit × Octets) :=
  match cs with
  | 's' :: d :: r => do
    let (pattern, r) ← readDelimited d r
    let (replacement, r) ← readDelimited d r
    let (f, r) := readFlags {} r
    let x ← Regex.parse? extended pattern
    let x := if f.caseless then x.foldCase else x
    return (.substitute x replacement f.which f.all f.print, r)
  | 'y' :: d :: r => do
    let (source, r) ← readDelimited d r
    let (target, r) ← readDelimited d r
    let source := setOf (source.length + 1) source
    let target := setOf (target.length + 1) target
    if source.length = target.length then return (.exchange source target, r) else none
  | 'd' :: r => some (.delete, r)
  | 'p' :: r => some (.print, r)
  | 'q' :: r => some (.quit, r)
  | 'i' :: r => let (t, r) := readInserted r; some (.insertBefore t, r)
  | 'a' :: r => let (t, r) := readInserted r; some (.insertAfter t, r)
  | _ => none

/-- Whether a character stands between commands. -/
def betweenCommands (c : Char) : Bool := c = ' ' || c = ';' || c = '\n' || c = '\t'

/-- The commands of a script.  `fuel` bounds their number. -/
def readCommands (extended : Bool) : Nat → Octets → Option (List StreamCommand)
  | 0, _ => none
  | fuel + 1, cs =>
    match cs.dropWhile betweenCommands with
    | [] => some []
    | c :: cs => do
      let (first, r) ← readAddress extended (c :: cs)
      let (second, r) ← match r with
        | ',' :: r => readAddress extended r
        | r => some (none, r)
      let r := r.dropWhile (· = ' ')
      let negated := r.head? = some '!'
      let (edit, r) ← readEdit extended (if negated then r.drop 1 else r)
      return ⟨first, second, negated, edit⟩ :: (← readCommands extended fuel r)

/-! ## Editing -/

/-- Where the editing of a line stands: its text, whether a line feed ends it, and the lines written
before and after it. -/
structure Line where
  text : Octets
  ended : Bool
  before : List (Octets × Bool) := []
  after : List (Octets × Bool) := []
  deleted : Bool := false
  quit : Bool := false

/-- The text that a replacement spells for a match. -/
def replacementText (found : Octets) (s : Regex.Cursor) : Octets → Octets
  | [] => []
  | '\\' :: c :: cs =>
    (if c.isDigit then
      if c = '0' then found else (s.groups.lookup (c.toNat - '0'.toNat)).getD []
    else if c = 'n' then ['\n']
    else if c = 't' then ['\t']
    else [c]) ++ replacementText found s cs
  | '&' :: cs => found ++ replacementText found s cs
  | c :: cs => c :: replacementText found s cs

/-- Whether an address names a line. -/
def Address.names (n : Nat) (isLast : Bool) (text : Octets) : Address → Bool
  | line m => n = m
  | last => isLast
  | like r => (r.find text).isSome

/-- Whether a command applies to a line, and whether its range is open after it. -/
def StreamCommand.applies (c : StreamCommand) (within : Bool) (n : Nat) (isLast : Bool)
    (text : Octets) : Bool × Bool :=
  match c.first, c.second with
  | none, _ => (true, false)
  | some a, none => (a.names n isLast text, false)
  | some a, some b =>
    if within then (true, !b.names n isLast text)
    else if a.names n isLast text then
      (true, match b with | .line m => n < m | _ => true)
    else (false, false)

/-- Carries an edit out on a line. -/
def Edit.apply (e : Edit) (l : Line) : Line :=
  match e with
  | substitute r replacement which all printed =>
    let (t, hit) := r.replace (fun found s => replacementText found s replacement) which all l.text
    { l with
      text := t, before := if hit && printed then l.before ++ [(t, l.ended)] else l.before }
  | exchange source target =>
    { l with text := l.text.map fun c => (target[source.idxOf c]?).getD c }
  | delete => { l with deleted := true }
  | print => { l with before := l.before ++ [(l.text, l.ended)] }
  | quit => { l with quit := true }
  | insertBefore t => { l with before := l.before ++ [(t, true)] }
  | insertAfter t => { l with after := l.after ++ [(t, true)] }

/-- Applies commands to a line; each command comes with whether its range is open. -/
def editLine (n : Nat) (isLast : Bool) (l : Line) :
    List (StreamCommand × Bool) → Line × List (StreamCommand × Bool)
  | [] => (l, [])
  | (c, within) :: rest =>
    if l.deleted ∨ l.quit then (l, (c, within) :: rest)
    else
      let (hit, within) := c.applies within n isLast l.text
      let (l, rest) := editLine n isLast (if hit != c.negated then c.edit.apply l else l) rest
      (l, (c, within) :: rest)

/-- Edits the lines of data, each with whether a line feed ends it. -/
def editLines (silent : Bool) (n : Nat) (commands : List (StreamCommand × Bool)) :
    List (Octets × Bool) → List (Octets × Bool)
  | [] => []
  | (text, ended) :: rest =>
    let (l, commands) := editLine n rest.isEmpty { text, ended } commands
    let itself := if silent || l.deleted then [] else [(l.text, ended)]
    l.before ++ itself ++ l.after ++
      if l.quit then [] else editLines silent (n + 1) commands rest

/-- Lines one after the other.  Only the last may lack its line feed. -/
def writeLines : List (Octets × Bool) → Octets
  | [] => []
  | [(l, ended)] => if ended then l ++ ['\n'] else l
  | (l, _) :: ls => l ++ '\n' :: writeLines ls

/-- Edits the operands, or the input. -/
def sed (t : Task) : Done :=
  let (os, args) : List (Char × Octets) × List Octets := options ['e'] t.args
  let named : List Octets := (os.filter fun o => o.1 = 'e').map Prod.snd
  let (scripts, paths) : List Octets × List Octets :=
    if named.isEmpty then (args.take 1, args.drop 1) else (named, args)
  let script := ['\n'].intercalate scripts
  match readCommands (has os 'E' || has os 'r') (script.length + 1) script with
  | none => t.fail 1 ("-e expression #1, char ".toList ++ ofNat script.length ++
      ": unknown command".toList)
  | some commands =>
    t.overOperands paths 2 fun files =>
      writeLines <|
        editLines (has os 'n') 1 (commands.map fun c => (c, false)) (splitLines (joined files))

end PlcAudit.Shell.Utility
