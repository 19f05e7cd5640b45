import PlcAudit.Shell.Octets

/-!
# Regular expressions

The expressions of line tools, in the basic and the extended notation.  A match is searched with
backtracking: the leftmost place counts, and there the first way of matching, a repetition taking as
much as it can.

* `Regex`: an expression; `Regex.parse?` reads one.
* `Regex.matchAt`, `Regex.find`: a match at the front of a text, and the leftmost one in it.
* `Regex.replace`: a text with matches replaced.
-/

namespace PlcAudit.Shell

/-- A regular expression. -/
inductive Regex where
  | empty
  | char (c : Char)
  | any
  | oneOf (negated : Bool) (ranges : List (Char × Char))
  | start
  | finish
  | seq (a b : Regex)
  | alt (a b : Regex)
  | repeated (a : Regex) (least : Nat) (most : Option Nat)
  | group (n : Nat) (a : Regex)
  | back (n : Nat)
  deriving Repr, Inhabited

namespace Regex

/-! ## Matching -/

/-- Where a match stands: what is left of the text, whether nothing is before it, and what the
groups have matched. -/
structure Cursor where
  rest : Octets
  atStart : Bool
  groups : List (Nat × Octets)
  deriving Repr

/-- What was read between two cursors. -/
def Cursor.since (later earlier : Cursor) : Octets :=
  earlier.rest.take (earlier.rest.length - later.rest.length)

/-- The cursor after one character. -/
def Cursor.step (s : Cursor) (rest : Octets) : Cursor := { s with rest := rest, atStart := false }

/-- Whether a character is in one of several ranges. -/
def inRanges (ranges : List (Char × Char)) (c : Char) : Bool :=
  ranges.any fun r => r.1 ≤ c && c ≤ r.2

/-- Matches an expression at a cursor and goes on with what follows it.  `fuel` bounds the depth. -/
def run : Nat → Regex → Cursor → (Cursor → Option Cursor) → Option Cursor
  | 0, _, _, _ => none
  | fuel + 1, r, s, k =>
    match r with
    | .empty => k s
    | .start => if s.atStart then k s else none
    | .finish => if s.rest.isEmpty then k s else none
    | .char c =>
      match s.rest with
      | d :: t => if c = d then k (s.step t) else none
      | [] => none
    | .any =>
      match s.rest with
      | _ :: t => k (s.step t)
      | [] => none
    | .oneOf negated ranges =>
      match s.rest with
      | d :: t => if inRanges ranges d != negated then k (s.step t) else none
      | [] => none
    | .seq a b => run fuel a s fun s => run fuel b s k
    | .alt a b => (run fuel a s k).or (run fuel b s k)
    | .group n a =>
      run fuel a s fun s' => k { s' with groups := (n, s'.since s) :: s'.groups }
    | .back n =>
      let t := (s.groups.lookup n).getD []
      if t.isPrefixOf s.rest then
        k { s with rest := s.rest.drop t.length, atStart := s.atStart && t.isEmpty }
      else none
    | .repeated a least most =>
      let further :=
        if most = some 0 then none
        else
          run fuel a s fun s' =>
            if s'.rest.length < s.rest.length then
              run fuel (.repeated a (least - 1) (most.map (· - 1))) s' k
            else if least ≤ 1 then k s'
            else run fuel (.repeated a (least - 1) (most.map (· - 1))) s' k
      match further with
      | some x => some x
      | none => if least = 0 then k s else none

/-- How many nodes an expression has, repetitions counted as often as they must happen. -/
def size : Regex → Nat
  | seq a b | alt a b => a.size + b.size + 1
  | repeated a least _ => a.size * (least + 1) + 1
  | group _ a => a.size + 1
  | _ => 1

/-- The match at the front of a text. -/
def matchAt (r : Regex) (text : Octets) (atStart : Bool) : Option Cursor :=
  run ((text.length + 2) * (r.size + 2)) r ⟨text, atStart, []⟩ some

/-- The leftmost match: what is before it, the match itself, and the cursor after it. -/
def findFrom (r : Regex) (before : Octets) (atStart : Bool) :
    Octets → Option (Octets × Octets × Cursor)
  | [] => (r.matchAt [] atStart).map fun s => (before.reverse, [], s)
  | c :: cs =>
    match r.matchAt (c :: cs) atStart with
    | some s => some (before.reverse, (c :: cs).take ((c :: cs).length - s.rest.length), s)
    | none => findFrom r (c :: before) false cs

/-- The leftmost match in a text. -/
def find (r : Regex) (text : Octets) : Option (Octets × Octets × Cursor) := findFrom r [] true text

/-- Replaces the match with the number `which`, counted from one, and all after it when `all` is
set.  An empty match right after another one does not count.  `fuel` bounds the number of matches.
-/
def replaceFrom (r : Regex) (substitute : Octets → Cursor → Octets) (all : Bool) :
    Nat → Nat → Bool → Bool → Octets → Octets × Bool
  | 0, _, _, _, text => (text, false)
  | fuel + 1, which, atStart, afterMatch, text =>
    match findFrom r [] atStart text with
    | none => (text, false)
    | some (before, found, s) =>
      let counts := !(found.isEmpty && before.isEmpty && afterMatch)
      let (hit, out) := if counts && which ≤ 1 then (true, substitute found s) else (false, found)
      let which := if counts then which - 1 else which
      if hit ∧ !all then (before ++ out ++ s.rest, true)
      else if found.isEmpty then
        match s.rest with
        | [] => (before ++ out, hit)
        | c :: rest =>
          let (t, b) := replaceFrom r substitute all fuel which false false rest
          (before ++ out ++ c :: t, hit || b)
      else
        let (t, b) := replaceFrom r substitute all fuel which false true s.rest
        (before ++ out ++ t, hit || b)

/-- A text with a match, or from one on all matches, replaced, and whether there was any. -/
def replace (r : Regex) (substitute : Octets → Cursor → Octets) (which : Nat) (all : Bool)
    (text : Octets) : Octets × Bool :=
  replaceFrom r substitute all (text.length + 2) which true false text

/-! ## Reading -/

/-- The characters of a named class. -/
def classRanges (name : Octets) : List (Char × Char) :=
  match String.ofList name with
  | "alpha" => [('a', 'z'), ('A', 'Z')]
  | "digit" => [('0', '9')]
  | "alnum" => [('a', 'z'), ('A', 'Z'), ('0', '9')]
  | "upper" => [('A', 'Z')]
  | "lower" => [('a', 'z')]
  | "space" => [('\t', '\r'), (' ', ' ')]
  | "blank" => [('\t', '\t'), (' ', ' ')]
  | "punct" => [('!', '/'), (':', '@'), ('[', '`'), ('\x7b', '~')]
  | "xdigit" => [('0', '9'), ('a', 'f'), ('A', 'F')]
  | "cntrl" => [('\x00', '\x1f'), ('\x7f', '\x7f')]
  | "print" => [(' ', '~')]
  | "graph" => [('!', '~')]
  | _ => []

/-- The ranges of a bracket expression up to its closing bracket. -/
def readRanges : Nat → Bool → Octets → Option (List (Char × Char) × Octets)
  | 0, _, _ => none
  | fuel + 1, first, cs =>
    match cs with
    | [] => none
    | ']' :: r =>
      if first then (readRanges fuel false r).map fun (rs, t) => ((']', ']') :: rs, t)
      else some ([], r)
    | '[' :: ':' :: r =>
      let name := r.takeWhile (· ≠ ':')
      (readRanges fuel false (r.drop (name.length + 2))).map fun (rs, t) =>
        (classRanges name ++ rs, t)
    | a :: '-' :: b :: r =>
      if b = ']' then (readRanges fuel false ('-' :: b :: r)).map fun (rs, t) => ((a, a) :: rs, t)
      else (readRanges fuel false r).map fun (rs, t) => ((a, b) :: rs, t)
    | a :: r => (readRanges fuel false r).map fun (rs, t) => ((a, a) :: rs, t)

/-- A bracket expression after its opening bracket. -/
def readBracket (cs : Octets) : Option (Regex × Octets) :=
  match cs with
  | '^' :: r => (readRanges (cs.length + 1) true r).map fun (rs, t) => (.oneOf true rs, t)
  | _ => (readRanges (cs.length + 1) true cs).map fun (rs, t) => (.oneOf false rs, t)

/-- The bounds of a repetition, from its first digit to before the closing brace. -/
def readBounds (cs : Octets) : Option ((Nat × Option Nat) × Octets) := do
  let low := cs.takeWhile Char.isDigit
  let r := cs.dropWhile Char.isDigit
  let least := (toNat? low).getD 0
  match r with
  | ',' :: r =>
    let high := r.takeWhile Char.isDigit
    return ((least, toNat? high), r.dropWhile Char.isDigit)
  | r => if low.isEmpty then none else return ((least, some least), r)

/-- Characters of a word. -/
def wordRanges : List (Char × Char) := [('a', 'z'), ('A', 'Z'), ('0', '9'), ('_', '_')]

/-- An escape outside brackets that is no operator. -/
def escaped (c : Char) : Regex :=
  if c = 'n' then .char '\n'
  else if c = 't' then .char '\t'
  else if c = 'w' then .oneOf false wordRanges
  else if c = 'W' then .oneOf true wordRanges
  else if c = 's' then .oneOf false (classRanges "space".toList)
  else if c = 'S' then .oneOf true (classRanges "space".toList)
  else if '1' ≤ c ∧ c ≤ '9' then .back (c.toNat - '0'.toNat)
  else .char c

/-- The operators of the two notations: in the extended one they stand alone, in the basic one after
a backslash. -/
inductive Token where
  | op (c : Char)
  | star
  | caret
  | dollar
  | dot
  | bracket
  | plain (r : Regex)
  deriving Repr

/-- The next token. -/
def nextToken (extended : Bool) : Octets → Option (Token × Octets)
  | [] => none
  | '\\' :: c :: r =>
    if "()\x7b\x7d|+?".toList.contains c ∧ !extended then some (.op c, r)
    else some (.plain (escaped c), r)
  | '*' :: r => some (.star, r)
  | '^' :: r => some (.caret, r)
  | '$' :: r => some (.dollar, r)
  | '.' :: r => some (.dot, r)
  | '[' :: r => some (.bracket, r)
  | c :: r =>
    if "()\x7b\x7d|+?".toList.contains c ∧ extended then some (.op c, r)
    else some (.plain (.char c), r)

/-- Whether a branch ends here. -/
def branchEnds (extended : Bool) (cs : Octets) : Bool :=
  match nextToken extended cs with
  | none => true
  | some (.op c, _) => c = ')' || c = '|'
  | _ => false

mutual

/-- Branches with bars between them.  `n` is the number of groups so far. -/
def readAlternatives : Nat → Bool → Nat → Octets → Option (Regex × Nat × Octets)
  | 0, _, _, _ => none
  | fuel + 1, extended, n, cs => do
    let (a, n, r) ← readBranch fuel extended true n cs
    match nextToken extended r with
    | some (.op '|', r) => do
      let (b, n, r) ← readAlternatives fuel extended n r
      return (.alt a b, n, r)
    | _ => return (a, n, r)

/-- A sequence of repeated atoms. -/
def readBranch : Nat → Bool → Bool → Nat → Octets → Option (Regex × Nat × Octets)
  | 0, _, _, _, _ => none
  | fuel + 1, extended, first, n, cs =>
    if branchEnds extended cs then some (.empty, n, cs)
    else do
      let (a, n, r) ← readAtom fuel extended first n cs
      let (a, r) ← readRepeats fuel extended a r
      let (b, n, r) ← readBranch fuel extended (first && a matches .start) n r
      return (.seq a b, n, r)

/-- One atom. -/
def readAtom : Nat → Bool → Bool → Nat → Octets → Option (Regex × Nat × Octets)
  | 0, _, _, _, _ => none
  | fuel + 1, extended, first, n, cs => do
    match ← nextToken extended cs with
    | (.plain a, r) => return (a, n, r)
    | (.dot, r) => return (.any, n, r)
    | (.bracket, r) => do
      let (a, r) ← readBracket r
      return (a, n, r)
    | (.star, r) => if first then return (.char '*', n, r) else none
    | (.caret, r) => return (if first ∨ extended then .start else .char '^', n, r)
    | (.dollar, r) => return (if extended ∨ branchEnds extended r then .finish else .char '$', n, r)
    | (.op '(', r) => do
      let (a, m, r) ← readAlternatives fuel extended (n + 1) r
      match ← nextToken extended r with
      | (.op ')', r) => return (.group (n + 1) a, m, r)
      | _ => none
    | (.op c, r) => if first ∧ extended then none else return (.char c, n, r)

/-- The repetitions after an atom. -/
def readRepeats : Nat → Bool → Regex → Octets → Option (Regex × Octets)
  | 0, _, _, _ => none
  | fuel + 1, extended, a, cs =>
    match nextToken extended cs with
    | some (.star, r) => readRepeats fuel extended (.repeated a 0 none) r
    | some (.op '+', r) => readRepeats fuel extended (.repeated a 1 none) r
    | some (.op '?', r) => readRepeats fuel extended (.repeated a 0 (some 1)) r
    | some (.op '\x7b', r) => do
      let ((least, most), r) ← readBounds r
      match ← nextToken extended r with
      | (.op '\x7d', r) => readRepeats fuel extended (.repeated a least most) r
      | _ => none
    | _ => some (a, cs)

end

/-- The expression that a text spells, if it is one. -/
def parse? (extended : Bool) (cs : Octets) : Option Regex := do
  let (r, _, rest) ← readAlternatives (4 * cs.length + 8) extended 0 cs
  if rest.isEmpty then some r else none

/-- The expression without a difference of case. -/
def foldCase : Regex → Regex
  | char c => oneOf false [(c.toLower, c.toLower), (c.toUpper, c.toUpper)]
  | oneOf negated ranges =>
    let swapped := ranges.filterMap fun r =>
      if r.1.isLower ∧ r.2.isLower then some (r.1.toUpper, r.2.toUpper)
      else if r.1.isUpper ∧ r.2.isUpper then some (r.1.toLower, r.2.toLower)
      else none
    oneOf negated (ranges ++ swapped)
  | seq a b => seq a.foldCase b.foldCase
  | alt a b => alt a.foldCase b.foldCase
  | repeated a least most => repeated a.foldCase least most
  | group n a => group n a.foldCase
  | r => r

/-- The expression that matches a text as it is. -/
def literal (cs : Octets) : Regex := cs.foldr (fun c r => .seq (.char c) r) .empty

end Regex

end PlcAudit.Shell
