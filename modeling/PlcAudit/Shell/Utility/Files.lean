import PlcAudit.Shell.Utility.Basic

/-!
# Utilities over files

* `rm`, `mkdir`, `touch`, `cp`, `mv`, `ls`, `tee`: files made, moved, listed and removed.
* `test`: questions about files, texts and numbers.
* `basename`, `dirname`, `seq`: small texts.
-/

namespace PlcAudit.Shell.Utility

/-- The tree after a change, or a complaint about it. -/
def changing (t : Task) (paths : List Octets)
    (change : FileTree → String → Except Octets FileTree) : Done :=
  paths.foldl
    (fun d p =>
      match change d.tree (toText p) with
      | .ok tree => { d with tree }
      | .error text => { d with diagnostics := d.diagnostics ++ t.complaint text, code := 1 })
    { tree := t.tree }

/-- The wording of a fault. -/
def because (doing : String) (path : String) (f : IoFault) : Octets :=
  ofText (doing ++ " '" ++ path ++ "': " ++ f.title)

/-- Removes files, and directories when that is asked for. -/
def rm (t : Task) : Done :=
  let (os, paths) := options [] t.args
  let recursive := has os 'r' || has os 'R'
  changing t paths fun tree path =>
    let found := do return (← tree.find path, ← tree.resolve path)
    match found with
    | .ok (n, place) =>
      if n = .directory ∧ !recursive then .error (because "cannot remove" path .isDirectory)
      else .ok (tree.remove place)
    | .error f => if has os 'f' then .ok tree else .error (because "cannot remove" path f)

/-- The tree with a directory and, when asked for, its parents. -/
def mkdir (t : Task) : Done :=
  let (os, paths) := options ['m'] t.args
  changing t paths fun tree path =>
    match tree.find path with
    | .ok _ =>
      if has os 'p' then .ok tree
      else .error (ofText ("cannot create directory '" ++ path ++ "': File exists"))
    | .error _ =>
      if has os 'p' then
        let parts := (Path.segments path).filter fun s => s ≠ "" ∧ s ≠ "."
        .ok (tree.put ((if Path.isAbsolute path then [] else tree.workDir) ++ parts) .directory)
      else
        (tree.write path .directory).mapError (because "cannot create directory" path)

/-- Makes empty files where there is nothing. -/
def touch (t : Task) : Done :=
  changing t (options [] t.args).2 fun tree path =>
    match tree.find path with
    | .ok _ => .ok tree
    | .error _ => (tree.write path (.file [] false)).mapError (because "cannot touch" path)

/-- The path of a file that is put at a path, which may name a directory. -/
def targetOf (tree : FileTree) (source target : String) : String :=
  match tree.find target with
  | .ok .directory => Path.join target ((Path.fileName? source).getD "")
  | _ => target

/-- Copies files, and takes them away afterwards when `moving` is set. -/
def copy (moving : Bool) (t : Task) : Done :=
  let paths := (options [] t.args).2
  match paths.getLast? with
  | none => t.fail 1 "missing file operand".toList
  | some target =>
    changing t paths.dropLast fun tree path =>
      match tree.find path with
      | .error f => .error (because "cannot stat" path f)
      | .ok n => do
        let after ← (tree.write (targetOf tree path (toText target)) n).mapError
          (because "cannot create regular file" (toText target))
        match moving, tree.resolve path with
        | true, .ok place => .ok (after.remove place)
        | _, _ => .ok after

/-- The names in directories, and files by themselves. -/
def ls (t : Task) : Done :=
  let (os, paths) := options [] t.args
  let paths := if paths.isEmpty then [['.']] else paths
  let shown (tree : FileTree) (p : Octets) : Except Octets (List Octets) :=
    match tree.find (toText p), tree.resolve (toText p) with
    | .ok .directory, .ok place =>
      let names := (if has os 'a' then [".", ".."] else []) ++ tree.list place
      .ok ((names.map ofText).filter fun n => has os 'a' || n.head? ≠ some '.')
    | .ok _, _ => .ok [p]
    | .error f, _ => .error (because "cannot access" (toText p) f)
  paths.foldl
    (fun d p =>
      match shown t.tree p with
      | .ok names => { d with output := d.output ++ joinLines names }
      | .error text => { d with diagnostics := d.diagnostics ++ t.complaint text, code := 2 })
    { tree := t.tree }

/-- Writes the input to the output and to files. -/
def tee (t : Task) : Done :=
  let (os, paths) := options [] t.args
  let before (tree : FileTree) (path : String) : List UInt8 :=
    if has os 'a' then (tree.read path).toOption.getD [] else []
  let d := changing t paths fun tree path =>
    (tree.write path (.file (before tree path ++ toBytes t.input) false)).mapError
      fun f => ofText (path ++ ": " ++ f.title)
  { d with output := t.input, readInput := true }

/-! ## Questions -/

/-- A question about one operand. -/
def testOne (tree : FileTree) (op a : Octets) : Option Bool :=
  let node := (tree.find (toText a)).toOption
  match String.ofList op with
  | "-n" => some (!a.isEmpty)
  | "-z" => some a.isEmpty
  | "-e" | "-r" | "-w" => some node.isSome
  | "-f" => some (node.any Node.isFile)
  | "-d" => some (decide (node = some .directory))
  | "-x" => some (node.any fun n => match n with | .file _ x => x | .sink => false | _ => true)
  | "-s" => some (node.any fun n => match n with
    | .file bytes _ => !bytes.isEmpty | .sink => false | _ => true)
  | "-t" | "-L" | "-h" | "-p" | "-S" => some false
  | _ => none

/-- A question about two operands; `none` when the operator is unknown or a number cannot be read.
-/
def testTwo (a op b : Octets) : Option Bool :=
  let compare (f : Int → Int → Bool) : Option Bool := do
    return f (← toInt? (a.filter (· ≠ ' '))) (← toInt? (b.filter (· ≠ ' ')))
  match String.ofList op with
  | "=" | "==" => some (a = b)
  | "!=" => some (a ≠ b)
  | "<" => some (a < b)
  | ">" => some (b < a)
  | "-eq" => compare (· == ·)
  | "-ne" => compare (· != ·)
  | "-lt" => compare (· < ·)
  | "-le" => compare (· ≤ ·)
  | "-gt" => compare (· > ·)
  | "-ge" => compare (· ≥ ·)
  | _ => none

/-- The answer to a question.  `fuel` bounds the number of operators. -/
def answer (tree : FileTree) : Nat → List Octets → Option Bool
  | 0, _ => none
  | fuel + 1, args =>
    match args with
    | [] => some false
    | [a] => some (!a.isEmpty)
    | [op, a] => if op = ['!'] then some a.isEmpty else testOne tree op a
    | a :: op :: b :: rest =>
      let isJoin (x : Octets) : Bool := x = "-a".toList || x = "-o".toList
      match args.findIdx? (· = "-o".toList), args.findIdx? (· = "-a".toList) with
      | some i, _ =>
        if 0 < i ∧ i + 1 < args.length then do
          let x ← answer tree fuel (args.take i)
          let y ← answer tree fuel (args.drop (i + 1))
          return x || y
        else none
      | none, some i =>
        if 0 < i ∧ i + 1 < args.length then do
          let x ← answer tree fuel (args.take i)
          let y ← answer tree fuel (args.drop (i + 1))
          return x && y
        else none
      | none, none =>
        if a = ['!'] then (answer tree fuel (op :: b :: rest)).map (!·)
        else if a = ['('] ∧ rest.getLast?.getD b = [')'] then
          answer tree fuel (op :: (b :: rest).dropLast)
        else if rest.isEmpty ∧ !isJoin op then testTwo a op b
        else none

/-- Answers a question by its code. -/
def test (t : Task) : Done :=
  let bracketed := t.name.getLast? = some '['
  if bracketed ∧ t.args.getLast? ≠ some [']'] then t.fail 2 "missing ]".toList
  else
    let args := if bracketed then t.args.dropLast else t.args
    match answer t.tree (args.length + 1) args with
    | some b => t.exit (if b then 0 else 1)
    | none => t.fail 2 ((args[1]?.getD []) ++ ": unexpected operator".toList)

/-! ## Small texts -/

/-- The name at the end of a path, without an ending that is given. -/
def basename (t : Task) : Done :=
  let name := (Path.fileName? (toText (t.args.headD []))).getD "/"
  let name := ofText name
  let ending := t.args[1]?.getD []
  t.wrote ((if ending.isSuffixOf name ∧ ending ≠ name then
    name.take (name.length - ending.length) else name) ++ ['\n'])

/-- A path without the name at its end. -/
def dirname (t : Task) : Done :=
  let path := t.args.headD []
  let front := ((path.reverse.dropWhile (· = '/')).dropWhile (· ≠ '/')).dropWhile (· = '/')
  let dir := front.reverse
  t.wrote ((if !dir.isEmpty then dir else if path.head? = some '/' then ['/'] else ['.']) ++ ['\n'])

/-- Numbers in a row. -/
def seq (t : Task) : Done :=
  match t.args.map toInt? with
  | [some b] => upTo 1 1 b
  | [some a, some b] => upTo a 1 b
  | [some a, some s, some b] => upTo a s b
  | _ => t.fail 1 "invalid argument".toList
where
  upTo (a s b : Int) : Done :=
    let count := if s = 0 then 0 else ((b - a) / s + 1).toNat
    t.wrote (joinLines ((List.range count).map fun i : Nat => ofInt (a + s * Int.ofNat i)))

end PlcAudit.Shell.Utility
