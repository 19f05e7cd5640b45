import PlcAudit.Host.Program
import PlcAudit.Shell.Evaluation

/-!
# The programs of the system

A checker may be a program of the system or a script that is run by one.  Both are carried out here,
so an audit needs nothing but its files.

* `systemNodes`, `defaultSearchPath`: what the system adds to a tree, and where it is looked for.
* `launch`: the launcher that carries out scripts.
-/

namespace PlcAudit.Shell

/-- The programs of the system by name. -/
def programNames : List String := ["sh", "dash", "bash", "env", "kill"] ++ Utility.all.map Prod.fst

/-- What the system adds to a tree. -/
def systemNodes : List (Place × Node) :=
  let programsIn (dir : Place) : List (Place × Node) :=
    programNames.map fun n => (dir ++ [n], .utility n)
  programsIn ["usr", "bin"] ++ programsIn ["bin"] ++ [(["dev", "null"], .sink)]

/-- A tree with the working directory and the system. -/
def systemTree (workDir : Place) : FileTree := { nodes := systemNodes, workDir }

/-- Where programs are looked for when nothing else is said. -/
def defaultSearchPath : String :=
  "/usr/local/sbin:/usr/local/bin:/usr/sbin:/usr/bin:/sbin:/bin"

/-- How deep a script may go. -/
def depth : Nat := 1000000

/-- The state in which a program starts. -/
def initialState (h : Host) (path : String) (input : List UInt8) : State where
  tree := h.tree
  buffers := #[[ofBytes input], [], []]
  streams := [(0, .buffer 0), (1, .buffer 1), (2, .buffer 2)]
  bindings :=
    match h.searchPath with
    | some p => [⟨"PATH".toList, ofText p, true⟩]
    | none => []
  name := ofText path
  process := 100

/-- Carries out a program.  A script that goes too deep is stopped as a host would stop it. -/
def launch : Launcher := fun h path arguments input =>
  if arguments.any fun a => a.toList.contains '\x00' then .notStarted .nulInArgument
  else
    let (r, s) := Run.start depth path (ofText path) (arguments.map ofText)
      (initialState h path input)
    let done (ending : Ending) : Completion :=
      { ending
        output := toBytes (s.contentOf (.buffer 1))
        diagnostics := toBytes (s.contentOf (.buffer 2))
        tree := { s.tree with workDir := h.tree.workDir } }
    match r with
    | .ok (some fault) => .notStarted fault
    | .error (.killed n) => .ended (done (.killed n))
    | .error .exhausted => .ended (done (.killed 9))
    | _ => .ended (done (.exited (s.status % 256)))

end PlcAudit.Shell
