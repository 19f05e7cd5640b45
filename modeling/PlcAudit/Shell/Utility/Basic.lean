import PlcAudit.Host.FileTree
import PlcAudit.Shell.Octets

/-!
# Utilities

A utility is a program of the system that a script can rely on.  It is given its arguments, its
input and the files, and leaves what it writes, a code, and the files after it.

* `Task`: what a utility is given.
* `Done`: what it leaves.
* `Task.operands`: the contents of the files that are named, or of the input.
-/

namespace PlcAudit.Shell

/-- What a utility is given: its name, its arguments, its input, and the files. -/
structure Task where
  name : Octets
  args : List Octets
  input : Octets
  tree : FileTree

/-- What a utility leaves, and whether it has read its input. -/
structure Done where
  output : Octets := []
  diagnostics : Octets := []
  code : Nat := 0
  tree : FileTree
  readInput : Bool := false

namespace Task

/-- Nothing but a code. -/
def exit (t : Task) (code : Nat) : Done := { code, tree := t.tree }

/-- Something written. -/
def wrote (t : Task) (output : Octets) : Done := { output, tree := t.tree }

/-- A complaint under the name of the utility. -/
def complaint (t : Task) (text : Octets) : Octets := t.name ++ ": ".toList ++ text ++ ['\n']

/-- Fails with a complaint. -/
def fail (t : Task) (code : Nat) (text : Octets) : Done :=
  { diagnostics := t.complaint text, code, tree := t.tree }

/-- The content of a file, or why it cannot be read, in the short wording of a utility. -/
def readFile (t : Task) (path : Octets) : Except Octets Octets :=
  if path = ['-'] then .ok t.input
  else
    match t.tree.read (toText path) with
    | .ok bytes => .ok (ofBytes bytes)
    | .error fault => .error (path ++ ": ".toList ++ fault.title.toList)

/-- The contents of the files that are named, or of the input when none is, with their names; and
the complaints about those that cannot be read. -/
def operands (t : Task) (paths : List Octets) : List (Octets × Octets) × Octets :=
  if paths.isEmpty then ([([], t.input)], [])
  else
    paths.foldl
      (fun (files, complaints) p =>
        match t.readFile p with
        | .ok content => (files ++ [(p, content)], complaints)
        | .error text => (files, complaints ++ t.complaint text))
      ([], [])

/-- Whether the operands are, or hold, the input. -/
def readsInput (paths : List Octets) : Bool := paths.isEmpty || paths.contains ['-']

/-- Something written about the operands; files that cannot be read are complained about, with a
code. -/
def overOperands (t : Task) (paths : List Octets) (code : Nat)
    (f : List (Octets × Octets) → Octets) : Done :=
  let (files, complaints) := t.operands paths
  { output := f files, diagnostics := complaints, code := if complaints.isEmpty then 0 else code
    tree := t.tree, readInput := readsInput paths }

end Task

/-- The letters of leading options, and the arguments after them.  A letter of `valued` takes a
value, in its own argument or as the next one. -/
def splitOptions (valued : List Char) : Nat → List Octets → List (Char × Octets) × List Octets
  | 0, args => ([], args)
  | _, [] => ([], [])
  | fuel + 1, a :: rest =>
    if a = "--".toList then ([], rest)
    else
      match a with
      | '-' :: c :: cs =>
        if valued.contains c then
          match cs, rest with
          | [], v :: rest =>
            let (os, args) := splitOptions valued fuel rest
            ((c, v) :: os, args)
          | [], [] => ([(c, [])], [])
          | _, _ =>
            let (os, args) := splitOptions valued fuel rest
            ((c, cs) :: os, args)
        else if cs.isEmpty then
          let (os, args) := splitOptions valued fuel rest
          ((c, []) :: os, args)
        else
          let (os, args) := splitOptions valued fuel (('-' :: cs) :: rest)
          ((c, []) :: os, args)
      | _ => ([], a :: rest)

/-- The options and operands among arguments. -/
def options (valued : List Char) (args : List Octets) : List (Char × Octets) × List Octets :=
  splitOptions valued (args.flatten.length + args.length + 1) args

/-- Whether an option is given. -/
def has (os : List (Char × Octets)) (c : Char) : Bool := os.any (·.1 = c)

end PlcAudit.Shell
