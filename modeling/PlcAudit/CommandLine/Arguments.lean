/-!
# Arguments

What the arguments of the program ask for.  A command has switches, options with a value, and places
for values without a name; each of them may be given once.  An option whose value is still to come
is pending, and it is settled as soon as something else is recognized, so of two faults the earlier
one is reported unless the later argument is not known at all.

* `Slot`, `Form`: what may be given, and what a command takes.
* `Form.scan`: reads the arguments of a command.
* `Invocation`, `Invocation.ofArguments`: what is asked for.
-/

namespace PlcAudit

/-- Why arguments do not ask for a command: help or the version is asked for, or there is a fault.
-/
inductive UsageFault where
  | help
  | version
  | missingArgument
  | unknownArgument
  | unknownCommand
  | invalidValue
  | repeated
  | needlessValue
  | noCommand
  deriving DecidableEq, Repr

/-- What an argument gives. -/
inductive Slot where
  | file
  | policy
  | engine
  | json
  | verbose
  | help
  | version
  deriving DecidableEq, Repr

namespace Slot

/-- Whether a value belongs to it. -/
def takesValue : Slot → Bool
  | file | policy | engine => true
  | json | verbose | help | version => false

/-- Whether a value is one: a path is not empty. -/
def accepts : Slot → String → Bool
  | file, v | policy, v => v ≠ ""
  | _, _ => true

end Slot

/-- What a command takes: its names for slots, its places, and the commands below it. -/
structure Form where
  long : List (String × Slot)
  short : List (Char × Slot)
  places : List Slot
  commands : List String
  deriving Repr

/-- Slots with what was given for them. -/
abbrev Given := List (Slot × String)

/-- A slot whose value may still be to come. -/
abbrev Pending := Option (Slot × Option String)

/-- What has been read of the arguments. -/
structure Progress where
  given : Given := []
  pending : Pending := none
  places : List Slot
  /-- After a double dash everything stands for itself. -/
  literal : Bool := false

namespace Progress

/-- Settles what is pending. -/
def settle (p : Progress) : Except UsageFault Progress :=
  match p.pending with
  | none => .ok p
  | some (_, none) => .error .invalidValue
  | some (slot, some v) =>
    if p.given.any (·.1 = slot) then .error .repeated
    else if slot.accepts v then .ok { p with given := p.given ++ [(slot, v)], pending := none }
    else .error .invalidValue

/-- A switch. -/
def switch (p : Progress) (slot : Slot) : Except UsageFault Progress := do
  let p ← p.settle
  if slot = .help then throw .help
  else if slot = .version then throw .version
  else if p.given.any (·.1 = slot) then throw .repeated
  else return { p with given := p.given ++ [(slot, "")] }

/-- An option with its value, or with its value to come. -/
def option (p : Progress) (slot : Slot) (value : Option String) : Except UsageFault Progress := do
  let p ← p.settle
  let p := { p with pending := some (slot, value) }
  -- a value in the same argument is settled at once
  match value with
  | some _ => p.settle
  | none => return p

end Progress

/-- A text after its first equals sign, and before it. -/
def splitAtEquals (cs : List Char) : List Char × Option (List Char) :=
  let name := cs.takeWhile (· ≠ '=')
  match cs.drop name.length with
  | _ :: value => (name, some value)
  | [] => (name, none)

namespace Form

/-- An argument with a long name, after its two dashes. -/
def readLong (f : Form) (p : Progress) (cs : List Char) : Except UsageFault Progress :=
  let (name, value) := splitAtEquals cs
  match f.long.lookup (String.ofList name) with
  | none => .error .unknownArgument
  | some slot =>
    if slot.takesValue then p.option slot (value.map String.ofList)
    else if value.isSome then .error .needlessValue
    else p.switch slot

/-- Arguments with short names, after their dash.  What follows an option is its value. -/
def readShort (f : Form) (p : Progress) : List Char → Except UsageFault Progress
  | [] => .ok p
  | c :: cs =>
    match f.short.lookup c with
    | none => .error .unknownArgument
    | some slot =>
      if slot.takesValue then
        match cs with
        | [] => p.option slot none
        | '=' :: v => p.option slot (some (String.ofList v))
        | v => p.option slot (some (String.ofList v))
      else do f.readShort (← p.switch slot) cs

/-- An argument that stands in a place. -/
def readPlace (f : Form) (p : Progress) (a : String) : Except UsageFault Progress :=
  match p.places with
  | slot :: places => do
    let p ← p.settle
    return { p with pending := some (slot, some a), places }
  | [] =>
    .error <|
      if f.commands.isEmpty ∨ (p.literal ∧ f.commands.contains a) then .unknownArgument
      else .unknownCommand

/-- Reads the arguments of a command up to a command below it, which is given with the arguments
that follow it. -/
def scan (f : Form) (p : Progress) :
    List String → Except UsageFault (Given × Option (String × List String))
  | [] => do return ((← p.settle).given, none)
  | a :: rest =>
    if p.literal then do f.scan (← f.readPlace p a) rest
    else
      match p.pending with
      | some (slot, none) =>
        -- only what does not look like an argument of its own is taken as the value
        match a.toList with
        | ['-', '-'] => f.scan { p with literal := true } rest
        | '-' :: '-' :: cs => do f.scan (← f.readLong p cs) rest
        | '-' :: c :: cs => do f.scan (← f.readShort p (c :: cs)) rest
        | _ => f.scan { p with pending := some (slot, some a) } rest
      | _ =>
        if f.commands.contains a then do return ((← p.settle).given, some (a, rest))
        else
          match a.toList with
          | ['-', '-'] => f.scan { p with literal := true } rest
          | '-' :: '-' :: cs => do f.scan (← f.readLong p cs) rest
          | '-' :: c :: cs => do f.scan (← f.readShort p (c :: cs)) rest
          | _ => do f.scan (← f.readPlace p a) rest

/-- Reads arguments. -/
def read (f : Form) (args : List String) :
    Except UsageFault (Given × Option (String × List String)) :=
  f.scan { places := f.places } args

end Form

/-! ## What is asked for -/

/-- What an audit of one file is asked to do. -/
structure CheckRequest where
  file : String
  policy : Option String := none
  engine : Option String := none
  json : Bool := false
  deriving DecidableEq, Repr

/-- What is asked for. -/
inductive Invocation where
  | check (r : CheckRequest)
  | config
  deriving DecidableEq, Repr

namespace Invocation

/-- What the program itself takes. -/
def topForm : Form where
  long := [("verbose", .verbose), ("help", .help), ("version", .version)]
  short := [('v', .verbose), ('h', .help), ('V', .version)]
  places := []
  commands := ["check", "config", "help"]

/-- The form of a check. -/
def checkForm : Form where
  long := [("policy", .policy), ("engine", .engine), ("json", .json), ("verbose", .verbose),
    ("help", .help)]
  short := [('p', .policy), ('v', .verbose), ('h', .help)]
  places := [.file]
  commands := []

/-- The form of the command that shows or makes the settings. -/
def configForm : Form where
  long := [("verbose", .verbose), ("help", .help)]
  short := [('v', .verbose), ('h', .help)]
  places := []
  commands := []

/-- Asks for help on a command, which must be one. -/
def helpOn : List String → UsageFault
  | [] => .help
  | [c] => if topForm.commands.contains c then .help else .unknownCommand
  | _ => .unknownCommand

/-- What is asked of an audit. -/
def checkOf (given : Given) : Except UsageFault Invocation :=
  match given.lookup .file with
  | none => .error .missingArgument
  | some file =>
    .ok <| .check
      { file, policy := given.lookup .policy, engine := given.lookup .engine
        json := (given.lookup .json).isSome }

/-- What arguments ask for. -/
def ofArguments (args : List String) : Except UsageFault Invocation := do
  match ← topForm.read args with
  | (_, none) => throw .noCommand
  | (_, some (command, rest)) =>
    if command = "check" then checkOf (← checkForm.read rest).1
    else if command = "config" then
      let _ ← configForm.read rest
      return .config
    else throw (helpOn rest)

end Invocation

end PlcAudit
