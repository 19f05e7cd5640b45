import PlcAudit.Host.Fault
import PlcAudit.Host.Path
import PlcAudit.Text.Utf8

/-!
# A tree of files

The files that an audit can see: those of the working directory and the programs of the system.  A
tree is a list of nodes by their place, which is the list of names from the root; a directory exists
when it is listed or when something lies in it.

* `FileTree`: a tree and the working directory.
* `FileTree.find`: follows a path as a system does, parent by parent.
* `FileTree.read`, `FileTree.write`, `FileTree.remove`: the content of a file.
-/

namespace PlcAudit

/-- What stands at a place. -/
inductive Node where
  | directory
  | file (bytes : List UInt8) (executable : Bool)
  /-- A program of the system, known by its name. -/
  | utility (name : String)
  /-- A file that takes everything and gives nothing. -/
  | sink
  deriving DecidableEq, Repr

/-- Whether a node can be read as a file. -/
def Node.isFile : Node → Bool
  | file _ _ | utility _ => true
  | directory | sink => false

/-- A place: the names from the root. -/
abbrev Place := List String

/-- Nodes by their place, and the working directory. -/
structure FileTree where
  nodes : List (Place × Node)
  workDir : Place
  deriving Repr

namespace FileTree

/-- The node at a place. -/
def nodeAt? (t : FileTree) (p : Place) : Option Node :=
  match t.nodes.lookup p with
  | some n => some n
  | none =>
    let leadsOn := t.nodes.any fun e => p.isPrefixOf e.1
    if p = [] ∨ p = t.workDir ∨ leadsOn then some .directory else none

/-- The longest name and the longest path, in bytes. -/
def maxName : Nat := 255

/-- The octets that a path may have at most. -/
def maxPath : Nat := 4095

/-- Follows the parts of a path from a directory.  Each part but the last must lead to a directory;
the last may lead to nothing. -/
def walk (t : FileTree) (here : Place) : List String → Except IoFault Place
  | [] => .ok here
  | s :: rest => do
    match t.nodeAt? here with
    | some .directory => pure ()
    | some _ => throw .notDirectory
    | none => throw .notFound
    if s = "" ∨ s = "." then t.walk here rest
    else if s = ".." then t.walk here.dropLast rest
    else if maxName < s.utf8ByteSize then throw .nameTooLong
    else t.walk (here ++ [s]) rest

/-- The place that a path leads to. -/
def resolve (t : FileTree) (path : String) : Except IoFault Place :=
  if path.toList.contains '\x00' then .error .nulInPath
  else if path = "" then .error .notFound
  else if maxPath < path.utf8ByteSize then .error .nameTooLong
  else t.walk (if Path.isAbsolute path then [] else t.workDir) (Path.segments path)

/-- The node that a path leads to. -/
def find (t : FileTree) (path : String) : Except IoFault Node := do
  match t.nodeAt? (← t.resolve path) with
  | some n => return n
  | none => throw .notFound

/-- Whether a path leads to a regular file. -/
def isFile (t : FileTree) (path : String) : Bool :=
  match t.find path with
  | .ok n => n.isFile
  | .error _ => false

/-- The bytes of the file that a path leads to. -/
def read (t : FileTree) (path : String) : Except IoFault (List UInt8) := do
  match ← t.find path with
  | .directory => throw .isDirectory
  | .file bytes _ => return bytes
  | .utility _ | .sink => return []

/-- The text of the file that a path leads to, which must be valid. -/
def readText (t : FileTree) (path : String) : Except IoFault String := do
  match Text.decode? (← t.read path) with
  | some cs => return String.ofList cs
  | none => throw .invalidUtf8

/-- The tree with a node at a place, in the stead of one that was there. -/
def put (t : FileTree) (p : Place) (n : Node) : FileTree :=
  { t with nodes := t.nodes.filter (fun e => e.1 ≠ p) ++ [(p, n)] }

/-- The tree with a node where a path leads to. -/
def write (t : FileTree) (path : String) (n : Node) : Except IoFault FileTree := do
  let p ← t.resolve path
  match t.nodeAt? p with
  | some .directory => throw .isDirectory
  | some .sink => return t
  | _ =>
    match t.nodeAt? p.dropLast with
    | some .directory => return t.put p n
    | some _ => throw .notDirectory
    | none => throw .notFound

/-- The tree without the node at a place and what lies below it. -/
def remove (t : FileTree) (p : Place) : FileTree :=
  { t with nodes := t.nodes.filter fun e => !p.isPrefixOf e.1 }

/-- The names of what lies directly in a directory, sorted. -/
def list (t : FileTree) (dir : Place) : List String :=
  let names := t.nodes.filterMap fun e =>
    if dir.isPrefixOf e.1 then (e.1.drop dir.length).head? else none
  (names.mergeSort (fun a b => a ≤ b)).eraseReps

end FileTree

end PlcAudit
