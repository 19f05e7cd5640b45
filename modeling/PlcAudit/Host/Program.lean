import PlcAudit.Host.FileTree

/-!
# Running programs

What the host does with a program: it looks for it, starts it, and says how it ended.  How a program
behaves is a parameter, so nothing that is said about a checker depends on it.

* `Ending`: how a program ended, with its wording in `Ending.message`.
* `Launch`: what becomes of a program that is to be run.
* `Host`: the files and the search path.
* `Launcher`: what programs do.
* `Host.findProgram`: the path of a program.
-/

namespace PlcAudit

/-- How a program ended. -/
inductive Ending where
  | exited (code : Nat)
  | killed (signal : Nat)
  deriving DecidableEq, Repr

namespace Ending

/-- The names of the signals that end a program. -/
def signalNames : List (Nat × String) :=
  [(1, "SIGHUP"), (2, "SIGINT"), (3, "SIGQUIT"), (4, "SIGILL"), (5, "SIGTRAP"), (6, "SIGABRT"),
    (7, "SIGBUS"), (8, "SIGFPE"), (9, "SIGKILL"), (10, "SIGUSR1"), (11, "SIGSEGV"),
    (12, "SIGUSR2"), (13, "SIGPIPE"), (14, "SIGALRM"), (15, "SIGTERM"), (16, "SIGSTKFLT"),
    (24, "SIGXCPU"), (25, "SIGXFSZ"), (26, "SIGVTALRM"), (27, "SIGPROF"), (29, "SIGIO"),
    (30, "SIGPWR"), (31, "SIGSYS")]

/-- The wording of an ending. -/
def message : Ending → String
  | exited code => "exit status: " ++ toString code
  | killed signal =>
    "signal: " ++ toString signal ++
      match signalNames.lookup signal with
      | some name => " (" ++ name ++ ")"
      | none => ""

/-- Whether a program ended well. -/
def isSuccess : Ending → Bool
  | exited code => code = 0
  | killed _ => false

end Ending

/-- What a program leaves behind: how it ended, what it wrote, and the files after it. -/
structure Completion where
  ending : Ending
  output : List UInt8
  diagnostics : List UInt8
  tree : FileTree
  deriving Repr

/-- What becomes of a program that is to be run: the host refuses to start it, or starts it and fails
to wait for its end, or the program ends. -/
inductive Launch where
  | notStarted (fault : IoFault)
  | notAwaited (fault : IoFault) (tree : FileTree)
  | ended (done : Completion)
  deriving Repr

/-- The world of a program: the files, and the directories in which programs are looked for. -/
structure Host where
  tree : FileTree
  searchPath : Option String
  deriving Repr

/-- What becomes of programs that are to be run, by a path with arguments and an input. -/
abbrev Launcher := Host → (path : String) → (arguments : List String) → (input : List UInt8) →
  Launch

namespace Host

/-- The directories in which programs are looked for. -/
def directories (h : Host) : List String :=
  match h.searchPath with
  | some p => Path.split ':' p
  | none => []

/-- The path of a program.  One with several components is a path itself; any other is looked for,
and the first directory with a regular file of that name counts. -/
def findProgram (h : Host) (program : String) : Option String :=
  if 1 < (Path.components program).length then
    if h.tree.isFile program then some program else none
  else ((h.directories).map (Path.join · program)).find? h.tree.isFile

end Host

end PlcAudit
