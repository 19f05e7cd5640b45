import PlcAudit.Shell.Regex
import PlcAudit.Shell.State

/-!
# Fields

What becomes of words once their parameters have values: text that was not quoted is split, and what
looks like a pattern stands for the files that it matches.

* `Piece`: what a part of a word has become.
* `fieldsOf`: the fields of pieces.
* `patternOf`: a pattern as an expression.
* `State.matching`: the files that a field matches.
-/

namespace PlcAudit.Shell

/-- A character, and whether it is quoted. -/
abbrev Glyph := Char × Bool

/-- What a part of a word has become: text as it is, text to be split, or several fields. -/
inductive Piece where
  | fixed (quoted : Bool) (s : Octets)
  | loose (s : Octets)
  | several (fields : List Octets)
  deriving Repr

/-- The text of a piece that is not split. -/
def Piece.glyphs : Piece → List Glyph
  | fixed q s => s.map fun c => (c, q)
  | loose s => s.map fun c => (c, false)
  | several fs => ([' '].intercalate fs).map fun c => (c, true)

/-- Fields while they are put together: those that are done, the last one first, and the one at
hand. -/
structure Gathering where
  done : List (List Glyph) := []
  current : Option (List Glyph) := none

namespace Gathering

/-- The field at hand is done. -/
def cut (g : Gathering) : Gathering :=
  match g.current with
  | some f => { done := f :: g.done, current := none }
  | none => g

/-- Adds glyphs to the field that is being gathered. -/
def add (g : Gathering) (gs : List Glyph) : Gathering :=
  { g with current := some (g.current.getD [] ++ gs) }

/-- Splits text.  Blanks cut a field; any other separator ends one even when it is empty. -/
def split (separators : Octets) : Gathering → Octets → Gathering
  | g, [] => g
  | g, c :: cs =>
    if separators.contains c then
      if c.isWhitespace then split separators g.cut cs
      else split separators (g.add []).cut cs
    else split separators (g.add [(c, false)]) cs

/-- Several fields, the first of which goes on with the one at hand. -/
def addAll (g : Gathering) : List Octets → Gathering
  | [] => g
  | [f] => g.add (f.map fun c => (c, true))
  | f :: fs => addAll (g.add (f.map fun c => (c, true))).cut fs

end Gathering

/-- The fields of the pieces of a word. -/
def fieldsOfPieces (separators : Octets) (ps : List Piece) : List (List Glyph) :=
  let g := ps.foldl
    (fun (g : Gathering) p =>
      match p with
      | .fixed _ _ => g.add p.glyphs
      | .loose s => g.split separators s
      | .several fs => g.addAll fs)
    {}
  g.cut.done.reverse

/-- A pattern as an expression: a star stands for anything, a question mark for one character. -/
def patternFrom : Nat → List Glyph → Regex
  | 0, _ => .empty
  | _, [] => .empty
  | fuel + 1, (c, quoted) :: gs =>
    let ahead := patternFrom fuel gs
    if quoted then .seq (.char c) ahead
    else if c = '*' then .seq (.repeated .any 0 none) ahead
    else if c = '?' then .seq .any ahead
    else if c = '\\' then
      match gs with
      | (d, _) :: gs => .seq (.char d) (patternFrom fuel gs)
      | [] => .char c
    else if c = '[' then
      let raw := match gs.map Prod.fst with
        | '!' :: r => '^' :: r
        | r => r
      match Regex.readBracket raw with
      | some (r, rest) => .seq r (patternFrom fuel (gs.drop (raw.length - rest.length)))
      | none => .seq (.char c) ahead
    else .seq (.char c) ahead

/-- A pattern as an expression. -/
def patternOf (gs : List Glyph) : Regex := patternFrom (gs.length + 1) gs

/-- Whether an expression matches a whole text. -/
def Regex.matchesAll (r : Regex) (cs : Octets) : Bool := (matchAt (.seq r .finish) cs true).isSome

/-- Whether a field looks like a pattern. -/
def isPattern (gs : List Glyph) : Bool :=
  gs.any fun g => !g.2 && (g.1 = '*' || g.1 = '?' || g.1 = '[')

/-- The files that a field matches, or the field itself. -/
def State.matching (s : State) (gs : List Glyph) : List Octets :=
  let itself := [gs.map Prod.fst]
  if !isPattern gs then itself
  else
    let last := (gs.reverse.takeWhile fun g => g.1 ≠ '/').reverse
    let dir := gs.take (gs.length - last.length)
    if isPattern dir then itself
    else
      let dirText := dir.map Prod.fst
      match s.tree.resolve (if dir.isEmpty then "." else toText dirText) with
      | .error _ => itself
      | .ok place =>
        let hidden := last.head?.any fun g => g.1 = '.'
        let r := patternOf last
        let found := ((s.tree.list place).map ofText).filter fun n =>
          r.matchesAll n && (n.head? ≠ some '.' || hidden)
        if found.isEmpty then itself else found.map (dirText ++ ·)

/-- A text without the part at one of its ends that a pattern matches. -/
def without (back longest : Bool) (pattern : List Glyph) (cs : Octets) : Octets :=
  let r := patternOf pattern
  let cuts := List.range (cs.length + 1)
  -- how much is taken away, in the order in which it is tried
  let cuts := if longest then cuts.reverse else cuts
  let hit := cuts.find? fun n =>
    r.matchesAll (if back then cs.drop (cs.length - n) else cs.take n)
  match hit with
  | some n => if back then cs.take (cs.length - n) else cs.drop n
  | none => cs

end PlcAudit.Shell
