/-!
# Paths

* `segments`: the parts of a path between its slashes.
* `components`: the parts that count, where a path such as `./x` has two.
* `fileName?`: the name at the end of a path.
* `join`: a path below a directory.
-/

namespace PlcAudit.Path

/-- The parts between the separators, empty ones included. -/
def splitOn (sep : Char) : List Char → List (List Char)
  | [] => [[]]
  | c :: cs =>
    let rest := splitOn sep cs
    if c = sep then [] :: rest
    else
      match rest with
      | [] => [[c]]
      | p :: ps => (c :: p) :: ps

/-- The parts of a text between the separators. -/
def split (sep : Char) (s : String) : List String := (splitOn sep s.toList).map String.ofList

/-- The parts of a path, empty ones included. -/
def segments (path : String) : List String := split '/' path

/-- Whether a path begins at the root. -/
def isAbsolute (path : String) : Bool := path.toList.head? = some '/'

/-- One component of a path. -/
inductive Component where
  | root
  | current
  | parent
  | name (s : String)
  deriving DecidableEq, Repr

/-- The components of a path: the root, if it begins there; the current directory, if it is named
first; parents and names.  Doubled and final slashes and further mentions of the current directory
do not count. -/
def components (path : String) : List Component :=
  let segs := segments path
  let front := if isAbsolute path then [.root] else if segs.head? = some "." then [.current] else []
  front ++ segs.filterMap fun s =>
    if s = "" ∨ s = "." then none else if s = ".." then some .parent else some (.name s)

/-- The last component, if it is a name. -/
def fileName? (path : String) : Option String :=
  match (components path).getLast? with
  | some (.name s) => some s
  | _ => none

/-- A path below a directory, unless it is absolute itself. -/
def join (dir path : String) : String :=
  if isAbsolute path ∨ dir = "" then path
  else if dir.toList.getLast? = some '/' then dir ++ path
  else dir ++ "/" ++ path

end PlcAudit.Path
