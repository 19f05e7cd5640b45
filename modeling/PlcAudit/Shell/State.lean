import PlcAudit.Host.FileTree
import PlcAudit.Shell.Grammar

/-!
# The state of a script that runs

* `Stream`: where a descriptor leads.
* `State`: the files, the streams, the variables and the rest that a script works on.
* `Run`: a step that changes the state, or leaves what is going on.
-/

namespace PlcAudit.Shell

/-- Where a descriptor leads: to a numbered buffer, to the end of a file, or nowhere. -/
inductive Stream where
  | buffer (n : Nat)
  | file (path : Place)
  | nowhere
  deriving Repr

/-- A variable: its name, its value, and whether programs see it. -/
structure Binding where
  name : Octets
  value : Octets
  exported : Bool
  deriving Repr

/-- What a script works on.  `buffers` hold what was written and not yet read, the last piece first.
-/
structure State where
  tree : FileTree
  buffers : Array (List Octets)
  streams : List (Nat × Stream)
  bindings : List Binding := []
  functions : List (Octets × Command) := []
  /-- The name under which the script runs. -/
  name : Octets
  params : List Octets := []
  process : Nat
  status : Nat := 0
  line : Nat := 1
  /-- What is being carried out for another command, such as the text that it evaluates. -/
  caller : Octets := []
  /-- How many loops are going on. -/
  loops : Nat := 0
  /-- Whether a failing command ends the script. -/
  strict : Bool := false
  /-- Whether a parameter that is not set is a fault. -/
  strictNames : Bool := false
  /-- Whether what runs is a condition, where failing is no fault. -/
  tested : Bool := false
  /-- What to do at the end or on a signal. -/
  traps : List (Octets × Octets) := []

/-- How a script leaves what is going on. -/
inductive Leaving where
  /-- The script ends. -/
  | exit
  /-- A signal ends the script. -/
  | killed (signal : Nat)
  /-- Some loops end. -/
  | leave (loops : Nat)
  /-- Some loops but one end, and that one goes on. -/
  | again (loops : Nat)
  /-- A function ends. -/
  | back
  /-- The script has gone deeper than it may. -/
  | exhausted
  deriving Repr

/-- A step of a script. -/
abbrev Run := ExceptT Leaving (StateM State)

namespace State

/-! ## Streams -/

/-- What can be read from a stream. -/
def contentOf (s : State) : Stream → Octets
  | .buffer n => (s.buffers[n]?.getD []).reverse.flatten
  | .file p =>
    match s.tree.nodeAt? p with
    | some (.file bytes _) => ofBytes bytes
    | _ => []
  | .nowhere => []

/-- What can be read from a descriptor. -/
def content (s : State) (descriptor : Nat) : Octets :=
  match s.streams.lookup descriptor with
  | some x => s.contentOf x
  | none => []

/-- Leaves something to be read from a descriptor in the stead of what was there. -/
def leave (s : State) (descriptor : Nat) (rest : Octets) : State :=
  match s.streams.lookup descriptor with
  | some (.buffer n) => { s with buffers := s.buffers.modify n fun _ => [rest] }
  | _ => s

/-- Writes to a descriptor. -/
def write (s : State) (descriptor : Nat) (text : Octets) : State :=
  if text.isEmpty then s
  else
    match s.streams.lookup descriptor with
    | some (.buffer n) => { s with buffers := s.buffers.modify n (text :: ·) }
    | some (.file p) =>
      match s.tree.nodeAt? p with
      | some (.file bytes x) => { s with tree := s.tree.put p (.file (bytes ++ toBytes text) x) }
      | _ => s
    | _ => s

/-- Leads a descriptor to a stream. -/
def lead (s : State) (descriptor : Nat) (x : Stream) : State :=
  { s with streams := (descriptor, x) :: s.streams.filter (·.1 ≠ descriptor) }

/-- Closes a descriptor. -/
def close (s : State) (descriptor : Nat) : State :=
  { s with streams := s.streams.filter (·.1 ≠ descriptor) }

/-- A new buffer, and its number. -/
def newBuffer (s : State) (content : Octets) : State × Nat :=
  ({ s with buffers := s.buffers.push (if content.isEmpty then [] else [content]) }, s.buffers.size)

/-! ## Variables -/

/-- The variable with a name. -/
def entry? (s : State) (name : Octets) : Option Binding := s.bindings.find? (·.name = name)

/-- The value of a variable. -/
def value? (s : State) (name : Octets) : Option Octets := (s.entry? name).map Binding.value

/-- Sets a variable; it stays exported if it was. -/
def assign (s : State) (name value : Octets) (exported : Bool) : State :=
  let exported := exported || (s.entry? name).any Binding.exported
  { s with bindings := ⟨name, value, exported⟩ :: s.bindings.filter (·.name ≠ name) }

/-- Removes a variable. -/
def unset (s : State) (name : Octets) : State :=
  { s with bindings := s.bindings.filter (·.name ≠ name) }

/-- The characters that separate fields. -/
def separators (s : State) : Octets := (s.value? "IFS".toList).getD " \t\n".toList

/-- The value of a parameter of one sign or of a variable. -/
def parameter? (s : State) (name : Octets) : Option Octets :=
  match name with
  | ['?'] => some (ofNat s.status)
  | ['$'] => some (ofNat s.process)
  | ['#'] => some (ofNat s.params.length)
  | ['-'] => some (if s.strict then ['e'] else [])
  | ['!'] => none
  | ['0'] => some s.name
  | ['@'] | ['*'] =>
    if s.params.isEmpty then none else some ((s.separators.take 1).intercalate s.params)
  | _ =>
    match toNat? name with
    | some n => s.params[n - 1]?
    | none => s.value? name

/-- The directories in which programs are looked for. -/
def directories (s : State) : List String :=
  match s.value? "PATH".toList with
  | some p => Path.split ':' (toText p)
  | none => ["/usr/local/sbin", "/usr/local/bin", "/usr/sbin", "/usr/bin", "/sbin", "/bin"]

/-- The path of a program.  One with a slash is a path itself. -/
def findProgram (s : State) (name : Octets) : Option String :=
  if name.contains '/' then some (toText name)
  else
    (s.directories.map fun d => Path.join (if d = "" then "." else d) (toText name)).find?
      s.tree.isFile

end State

namespace Run

/-- Ends a step with a status. -/
def finish (status : Nat) : Run Unit := modify fun s => { s with status }

/-- Writes to the output. -/
def write (text : Octets) : Run Unit := modify fun s => s.write 1 text

/-- Complains, under the name of the script and the line. -/
def complain (text : Octets) : Run Unit :=
  modify fun s => s.write 2 (s.name ++ ": ".toList ++ ofNat s.line ++ ": ".toList ++ text ++ ['\n'])

/-- Complains, for the command that this is carried out for if there is one. -/
def complainFor (text : Octets) : Run Unit := do complain ((← get).caller ++ text)

/-- Complains and ends the script. -/
def abort {α : Type} (text : Octets) : Run α := do
  complainFor text
  finish 2
  throw .exit

/-- Runs a step, and gives back the descriptors as they were. -/
def keepingStreams {α : Type} (act : Run α) : Run α := fun s =>
  let (r, t) := act s
  (r, { t with streams := s.streams })

/-- Runs a step whose failing is no fault. -/
def tested {α : Type} (act : Run α) : Run α := fun s =>
  let (r, t) := act { s with tested := true }
  (r, { t with tested := s.tested })

/-- Runs a step in an environment of its own.  The files, what was written and the status stay. -/
def aside (act : Run Unit) : Run Unit := fun s =>
  let (r, t) := act s
  let back : State :=
    { s with
      tree := { t.tree with workDir := s.tree.workDir }, buffers := t.buffers, status := t.status }
  match r with
  | .error (.killed n) => (.error (.killed n), back)
  | .error .exhausted => (.error .exhausted, back)
  | _ => (.ok (), back)

/-- The texts that are said when a program is ended by a signal. -/
def signalTitle (n : Nat) : Octets :=
  ((([(1, "Hangup"), (3, "Quit"), (4, "Illegal instruction"), (6, "Aborted"), (7, "Bus error"),
    (8, "Floating point exception"), (9, "Killed"), (10, "User defined signal 1"),
    (11, "Segmentation fault"), (12, "User defined signal 2"), (14, "Alarm clock"),
    (15, "Terminated")] : List (Nat × String)).lookup n).getD "").toList

/-- Runs a step as a process of its own, which sees only what is exported. -/
def process (setup : State → State) (act : Run Unit) : Run Unit := fun s =>
  let inner : State :=
    setup { s with
      process := s.process + 1, bindings := s.bindings.filter Binding.exported, functions := []
      traps := [], strict := false, strictNames := false, tested := false, caller := []
      loops := 0 }
  let (r, t) := act inner
  let back : State :=
    { s with
      tree := { t.tree with workDir := s.tree.workDir }, buffers := t.buffers, status := t.status }
  match r with
  | .error (.killed n) =>
    (.ok (), { back.write 2 (signalTitle n ++ ['\n']) with status := 128 + n })
  | .error .exhausted => (.error .exhausted, back)
  | _ => (.ok (), back)

end Run

end PlcAudit.Shell
