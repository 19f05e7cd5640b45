import PlcAudit.Shell.Utility.Basic

/-!
# Utilities over lines and characters

Copying, counting, cutting, sorting and exchanging.  Each takes the contents of its operands, or its
input, and writes what it makes of them.

* `cat`, `tac`, `rev`, `head`, `tail`, `cut`: parts of the data in some order.
* `wc`, `sort`, `uniq`: counting and ordering lines.
* `tr`: exchanging characters.
-/

namespace PlcAudit.Shell.Utility

/-- The contents one after the other. -/
def joined (files : List (Octets × Octets)) : Octets := files.flatMap (·.2)

/-- Writes the contents of its operands. -/
def cat (t : Task) : Done :=
  let (os, paths) := options [] t.args
  t.overOperands paths 1 fun files =>
    if has os 'n' then
      (linesOf (joined files)).zipIdx.flatMap fun (l, i) =>
        let n := ofNat (i + 1)
        List.replicate (6 - n.length) ' ' ++ n ++ '\t' :: l ++ ['\n']
    else joined files

/-- Writes lines, the last one first. -/
def tac (t : Task) : Done :=
  t.overOperands t.args 1 fun files => joinLines (linesOf (joined files)).reverse

/-- Writes each line backwards. -/
def rev (t : Task) : Done :=
  t.overOperands t.args 1 fun files => joinLines ((linesOf (joined files)).map List.reverse)

/-- The lines of data as they are, their ends included. -/
def rawLines (cs : Octets) : List Octets :=
  (splitLines cs).map fun (l, ended) => if ended then l ++ ['\n'] else l

/-- The count of an option, which may also be written as the option itself. -/
def countOf (letter : Char) (args : List Octets) : Nat × Option Nat × List Octets :=
  let args := match args with
    | ('-' :: d :: ds) :: rest =>
      if d.isDigit then ('-' :: letter :: d :: ds) :: rest else args
    | _ => args
  let (os, paths) := options ['n', 'c'] args
  (((os.lookup 'n').bind toNat?).getD 10, (os.lookup 'c').bind toNat?, paths)

/-- Writes the first lines or octets. -/
def head (t : Task) : Done :=
  let (lines, bytes, paths) := countOf 'n' t.args
  t.overOperands paths 1 fun files =>
    match bytes with
    | some n => (joined files).take n
    | none => ((rawLines (joined files)).take lines).flatten

/-- Writes the last lines or octets. -/
def tail (t : Task) : Done :=
  let fromStart := t.args.any fun a => a.any (· = '+')
  let (lines, bytes, paths) := countOf 'n' (t.args.map (·.filter (· ≠ '+')))
  t.overOperands paths 1 fun files =>
    let data := joined files
    match bytes with
    | some n => if fromStart then data.drop (n - 1) else data.drop (data.length - n)
    | none =>
      let ls := rawLines data
      (if fromStart then ls.drop (lines - 1) else ls.drop (ls.length - lines)).flatten

/-- The number of words. -/
def wordCount (inWord : Bool) : Octets → Nat
  | [] => 0
  | c :: cs =>
    if c.isWhitespace then wordCount false cs
    else (if inWord then 0 else 1) + wordCount true cs

/-- A number in a column. -/
def column (width n : Nat) : Octets :=
  let ds := ofNat n
  List.replicate (width - ds.length) ' ' ++ ds

/-- Counts lines, words and octets. -/
def wc (t : Task) : Done :=
  let (os, paths) := options [] t.args
  let all := ['l', 'w', 'c', 'm'].all fun c => !has os c
  let measures (data : Octets) : List Nat :=
    (if all || has os 'l' then [(splitLines data).countP (·.2)] else []) ++
    (if all || has os 'w' then [wordCount false data] else []) ++
    (if all || has os 'c' || has os 'm' then [data.length] else [])
  t.overOperands paths 1 fun files =>
    let rows := files.map fun (name, data) => (name, measures data)
    let total := (List.range (measures []).length).map fun i =>
      rows.foldl (fun n r => n + r.2.getD i 0) 0
    let rows := if 1 < rows.length then rows ++ [("total".toList, total)] else rows
    let width :=
      if rows.length = 1 ∧ total.length = 1 then 1
      else if paths.isEmpty then 7
      else (rows.flatMap fun r => r.2.map fun n => (ofNat n).length).foldl max 1
    rows.flatMap fun (name, ns) =>
      [' '].intercalate (ns.map (column width)) ++
        (if name.isEmpty then [] else ' ' :: name) ++ ['\n']

/-- The number at the front of a line, for a numerical order. -/
def leadingNumber (l : Octets) : Int :=
  let l := l.dropWhile (· = ' ')
  match l with
  | '-' :: r => -((toNat? (r.takeWhile Char.isDigit)).getD 0 : Nat)
  | r => ((toNat? (r.takeWhile Char.isDigit)).getD 0 : Nat)

/-- Writes lines in order. -/
def sort (t : Task) : Done :=
  let (os, paths) := options ['k', 't'] t.args
  let before (a b : Octets) : Bool :=
    if has os 'n' ∧ leadingNumber a ≠ leadingNumber b then leadingNumber a < leadingNumber b
    else !(decide (b < a))
  t.overOperands paths 2 fun files =>
    let ls := (linesOf (joined files)).mergeSort before
    let ls := if has os 'u' then ls.eraseReps else ls
    joinLines (if has os 'r' then ls.reverse else ls)

/-- Runs of equal lines, with their lengths. -/
def runs : List Octets → List (Octets × Nat)
  | [] => []
  | l :: ls =>
    match runs ls with
    | (m, n) :: rest => if l = m then (m, n + 1) :: rest else (l, 1) :: (m, n) :: rest
    | [] => [(l, 1)]

/-- Writes one of equal lines in a row. -/
def uniq (t : Task) : Done :=
  let (os, paths) := options [] t.args
  t.overOperands paths 1 fun files =>
    let rs := runs (linesOf (joined files))
    let rs := if has os 'd' then rs.filter (1 < ·.2)
      else if has os 'u' then rs.filter (·.2 = 1) else rs
    rs.flatMap fun (l, n) => (if has os 'c' then column 7 n ++ [' '] else []) ++ l ++ ['\n']

/-- Splits at a separator. -/
def fieldsOf (sep : Char) : Octets → List Octets
  | [] => [[]]
  | c :: cs =>
    match fieldsOf sep cs with
    | f :: fs => if c = sep then [] :: f :: fs else (c :: f) :: fs
    | [] => []

/-- Whether a position, counted from one, is in a list such as `1,3-5`. -/
def inList (list : Octets) (n : Nat) : Bool :=
  (fieldsOf ',' list).any fun part =>
    match fieldsOf '-' part with
    | [a] => toNat? a = some n
    | [a, b] => (toNat? a).getD 1 ≤ n && (match toNat? b with | some m => n ≤ m | none => true)
    | _ => false

/-- The members of a list at positions that are in a list of positions. -/
def picked (list : Octets) (as : List α) : List α :=
  (as.zipIdx.filter fun (_, i) => inList list (i + 1)).map (·.1)

/-- Writes parts of each line. -/
def cut (t : Task) : Done :=
  let (os, paths) := options ['d', 'f', 'c', 'b'] t.args
  let sep := ((os.lookup 'd').bind List.head?).getD '\t'
  t.overOperands paths 1 fun files =>
    joinLines <| (linesOf (joined files)).filterMap fun l =>
      match os.lookup 'f', (os.lookup 'c').or (os.lookup 'b') with
      | some list, _ =>
        if l.contains sep then some ([sep].intercalate (picked list (fieldsOf sep l)))
        else if has os 's' then none else some l
      | none, some list => some (picked list l)
      | none, none => some l

/-! ## Exchanging characters -/

/-- The characters of an octal number of at most three digits. -/
def octal? (cs : Octets) : Option (Char × Octets) :=
  let ds := (cs.take 3).takeWhile fun c => '0' ≤ c && c ≤ '7'
  if ds.isEmpty then none
  else some (Char.ofNat (ds.foldl (fun n c => 8 * n + (c.toNat - '0'.toNat)) 0 % 256),
    cs.drop ds.length)

/-- A one-letter escape. -/
def letterEscape? (c : Char) : Option Char :=
  if c = 'n' then some '\n'
  else if c = 't' then some '\t'
  else if c = 'r' then some '\r'
  else if c = 'a' then some '\x07'
  else if c = 'b' then some '\x08'
  else if c = 'f' then some '\x0c'
  else if c = 'v' then some '\x0b'
  else if c = '\\' then some '\\'
  else none

/-- The characters between two, both included. -/
def charRange (a b : Char) : Octets :=
  (List.range (b.toNat + 1 - a.toNat)).map fun i => Char.ofNat (a.toNat + i)

/-- The characters that a set spells. -/
def setOf : Nat → Octets → Octets
  | 0, _ => []
  | fuel + 1, cs =>
    match cs with
    | [] => []
    | '[' :: ':' :: r =>
      let name := String.ofList (r.takeWhile (· ≠ ':'))
      let members := match name with
        | "upper" => charRange 'A' 'Z'
        | "lower" => charRange 'a' 'z'
        | "digit" => charRange '0' '9'
        | "alpha" => charRange 'A' 'Z' ++ charRange 'a' 'z'
        | "alnum" => charRange '0' '9' ++ charRange 'A' 'Z' ++ charRange 'a' 'z'
        | "space" => charRange '\t' '\r' ++ [' ']
        | "blank" => ['\t', ' ']
        | "punct" => (charRange '!' '~').filter fun c => !c.isAlphanum
        | "cntrl" => charRange '\x00' '\x1f' ++ ['\x7f']
        | "print" => charRange ' ' '~'
        | _ => []
      members ++ setOf fuel (r.drop (name.length + 2))
    | '\\' :: r =>
      match octal? r with
      | some (c, r) => c :: setOf fuel r
      | none =>
        match r with
        | c :: r => (letterEscape? c).getD c :: setOf fuel r
        | [] => ['\\']
    | a :: '-' :: b :: r =>
      if b = '\\' then a :: '-' :: setOf fuel (b :: r) else charRange a b ++ setOf fuel r
    | a :: r => a :: setOf fuel r

/-- Leaves one of each run of a character of the set. -/
def squeeze (set : Octets) : Octets → Octets
  | a :: b :: r =>
    if a = b ∧ set.contains a then squeeze set (b :: r) else a :: squeeze set (b :: r)
  | cs => cs

/-- Exchanges, squeezes or deletes characters. -/
def tr (t : Task) : Done :=
  let (os, sets) := options [] t.args
  let read (s : Octets) : Octets := setOf (s.length + 1) s
  let complement := has os 'c' || has os 'C'
  let first := (sets.head?.map read).getD []
  let inFirst (c : Char) : Bool := first.contains c != complement
  let second := (sets[1]?.map read).getD []
  let exchange (c : Char) : Char :=
    if inFirst c then
      if complement then second.getLast?.getD c
      else (second[first.idxOf c]?.or second.getLast?).getD c
    else c
  let wrote (out : Octets) : Done := { t.wrote out with readInput := true }
  if has os 'd' then
    let out := t.input.filter fun c => !inFirst c
    wrote (if has os 's' then squeeze second out else out)
  else if sets.length < 2 then
    if has os 's' then wrote (squeeze (t.input.filter inFirst) t.input)
    else t.fail 1 "missing operand".toList
  else
    let out := t.input.map exchange
    wrote (if has os 's' then squeeze second out else out)

end PlcAudit.Shell.Utility
