import PlcAudit.Shell.Regex
import PlcAudit.Shell.Utility.Basic

/-!
# Searching for lines

* `grep`: writes the lines that match an expression.
-/

namespace PlcAudit.Shell.Utility

/-- The matches in a line, from left to right.  `fuel` bounds their number. -/
def matchesIn (r : Regex) : Nat → Bool → Octets → List Octets
  | 0, _, _ => []
  | fuel + 1, atStart, cs =>
    match Regex.findFrom r [] atStart cs with
    | none => []
    | some (_, found, s) =>
      if found.isEmpty then matchesIn r fuel false (s.rest.drop 1)
      else found :: matchesIn r fuel false s.rest

/-- Whether a line matches as a whole. -/
def matchesWhole (r : Regex) (l : Octets) : Bool :=
  (Regex.matchAt (.seq r .finish) l true).isSome

/-- Searches the operands, or the input, for lines. -/
def grep (t : Task) : Done :=
  let (os, args) : List (Char × Octets) × List Octets := options ['e', 'm'] t.args
  let named : List Octets := (os.filter fun o => o.1 = 'e').map Prod.snd
  let (patterns, paths) : List Octets × List Octets :=
    if named.isEmpty then (args.take 1, args.drop 1) else (named, args)
  let compile (p : Octets) : Option Regex :=
    (if has os 'F' then some (Regex.literal p) else Regex.parse? (has os 'E') p).map
      fun r : Regex => if has os 'i' then r.foldCase else r
  let blankLine : List Octets := if patterns.contains [] then [[]] else []
  if patterns.isEmpty then
    { diagnostics :=
        ("Usage: grep [OPTION]... PATTERNS [FILE]...\n" ++
          "Try 'grep --help' for more information.\n").toList
      code := 2, tree := t.tree }
  else match (patterns.flatMap linesOf ++ blankLine).mapM compile with
  | none => t.fail 2 "invalid expression".toList
  | some rs =>
    let selects (l : Octets) : Bool :=
      rs.any (fun r => if has os 'x' then matchesWhole r l else (r.find l).isSome) != has os 'v'
    let (files, complaints) := t.operands paths
    let several := (1 < paths.length || has os 'H') && !has os 'h'
    let label (name : Octets) : Octets := if several then name ++ [':'] else []
    let total := (files.flatMap fun f => linesOf f.2).countP selects
    let output := files.flatMap fun (name, data) =>
      let numbered := (linesOf data).zipIdx.filter fun l => selects l.1
      if has os 'q' then []
      else if has os 'l' then if numbered.isEmpty then [] else name ++ ['\n']
      else if has os 'c' then label name ++ ofNat numbered.length ++ ['\n']
      else
        numbered.flatMap fun (l, i) =>
          let number := if has os 'n' then ofNat (i + 1) ++ [':'] else []
          let texts := if has os 'o' then rs.flatMap fun r => matchesIn r (l.length + 1) true l
            else [l]
          texts.flatMap fun x => label name ++ number ++ x ++ ['\n']
    { output
      diagnostics := if has os 's' then [] else complaints
      code :=
        if 0 < total ∧ has os 'q' then 0
        else if !complaints.isEmpty then 2
        else if 0 < total then 0 else 1
      tree := t.tree
      readInput := Task.readsInput paths }

end PlcAudit.Shell.Utility
