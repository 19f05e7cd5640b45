import PlcAudit.CommandLine.Basic
import PlcAudit.Shell.System

/-!
# The command line

Reads the arguments and the files below the working directory, carries out what is asked for, and
writes what it leaves.  Nothing is decided here.
-/

namespace PlcAudit

/-- What is said when the arguments do not ask for a command. -/
def usage : String :=
  "usage: plcguard check FILE [--policy FILE] [--engine CMD] [--json]\n       plcguard config\n"

/-- The nodes below a directory.  Permissions cannot be seen, so every file counts as a program. -/
partial def nodesBelow (place : Place) (dir : IO.FS.DirEntry) : IO (List (Place × Node)) := do
  let entries ← dir.path.readDir
  entries.toList.flatMapM fun e => do
    let here := place ++ [e.fileName]
    if ← e.path.isDir then return (here, .directory) :: (← nodesBelow here e)
    else return [(here, .file (← IO.FS.readBinFile e.path).toList true)]

/-- The files below the working directory, and the search path. -/
def hostOfSystem : IO Host := do
  let dir ← IO.currentDir
  let workDir := (Path.segments dir.toString).filter (· ≠ "")
  let nodes ← nodesBelow workDir ⟨dir, "."⟩
  let tree := nodes.foldl (fun t e => t.put e.1 e.2) (Shell.systemTree workDir)
  return { tree, searchPath := (← IO.getEnv "PATH") }

end PlcAudit

open PlcAudit in
/-- The program. -/
def main (args : List String) : IO UInt32 := do
  let out ← IO.getStdout
  let err ← IO.getStderr
  match Invocation.ofArguments args with
  | .error .help | .error .noCommand => do
    out.putStr usage
    return 0
  | .error .version => do
    out.putStr "plcguard\n"
    return 0
  | .error _ => do
    err.putStr usage
    return 2
  | .ok i => do
    let colour ← out.isTty
    let c := i.perform Shell.launch (← hostOfSystem) colour
    out.putStr c.output
    err.putStr c.diagnostics
    match c.result with
    | .ok exit => return UInt32.ofNat exit.code
    | .error message => do
      err.putStr (complaint colour message)
      return UInt32.ofNat Exit.error.code
