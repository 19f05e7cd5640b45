import PlcAudit.Host.Program
import PlcAudit.Shell.Field
import PlcAudit.Shell.OwnCommand
import PlcAudit.Shell.Redirection

/-!
# Running scripts

* `Run.command`: runs a command.
* `Run.fields`: the fields that words stand for.
* `Run.start`: runs what stands at a path.

All of these run into each other, a word may hold a script and a script may start a program, so they
share one measure: `fuel` bounds how deep they go.
-/

namespace PlcAudit.Shell

/-- What a file that is no utility begins with: the program that reads it, and an argument. -/
def interpreter? (bytes : List UInt8) : Option (String × List Octets) :=
  match ofBytes bytes with
  | '#' :: '!' :: r =>
    let blank (c : Char) : Bool := c = ' ' || c = '\t'
    let l := (r.takeWhile (· ≠ '\n')).dropWhile blank
    let program := l.takeWhile fun c => !blank c
    let rest := (l.dropWhile fun c => !blank c).dropWhile blank
    let rest := (rest.reverse.dropWhile blank).reverse
    if program.isEmpty then none
    else some (toText program, if rest.isEmpty then [] else [rest])
  | _ => none

namespace Run

/-- Runs the body of a loop, and says whether the loop goes on. -/
def turn (act : Run Unit) : Run Bool := fun s =>
  let (r, t) := act { s with loops := s.loops + 1 }
  let t := { t with loops := s.loops }
  match r with
  | .ok () => (.ok true, t)
  | .error (.leave n) => (if n ≤ 1 ∨ s.loops = 0 then .ok false else .error (.leave (n - 1)), t)
  | .error (.again n) => (if n ≤ 1 ∨ s.loops = 0 then .ok true else .error (.again (n - 1)), t)
  | .error l => (.error l, t)

/-- Runs the body of a function with parameters of its own. -/
def called (params : List Octets) (act : Run Unit) : Run Unit := fun s =>
  let (r, t) := act { s with params, loops := 0 }
  let t := { t with params := s.params, loops := s.loops }
  match r with
  | .error .back => (.ok (), t)
  | r => (r, t)

/-- Carries something out for a command. -/
def carriedOutFor (name : Octets) (act : Run Unit) : Run Unit := fun s =>
  let (r, t) := act { s with caller := name ++ ": ".toList }
  (r, { t with caller := s.caller, line := s.line })

/-- Ends a strict script when a command has failed. -/
def checked (act : Run Unit) : Run Unit := do
  act
  let s ← get
  if s.strict ∧ !s.tested ∧ s.status ≠ 0 then throw .exit

/-- Runs a utility on the streams. -/
def utility (f : Task → Done) (name : Octets) (args : List Octets) : Run Unit := modify fun s =>
  let d := f { name, args, input := s.content 0, tree := s.tree }
  let s := if d.readInput then s.leave 0 [] else s
  let s := ({ s with tree := d.tree }.write 1 d.output).write 2 d.diagnostics
  { s with status := d.code }

mutual

/-- What a part of a word becomes. -/
def piece : Nat → Part → Bool → Run (List Piece)
  | 0, _, _ => throw .exhausted
  | fuel + 1, part, quoted => do
    let result (s : Octets) : List Piece := [if quoted then .fixed true s else .loose s]
    match part with
    | .text s => return [.fixed quoted s]
    | .command script => return result (← output fuel script)
    | .arithmetic expression => do
      match wordOf true expression with
      | .ok w => return result (← arithmetic (← text fuel w))
      | .error fault => abort fault.toList
    | .parameter name use => do
      let s ← get
      let inside (raw : Octets) : Run (List Piece) := do
        match wordOf quoted raw with
        | .ok w => pieces fuel w
        | .error fault => abort fault.toList
      let value := s.parameter? name
      let plain : Run (List Piece) := do
        if (name = ['@'] ∨ (name = ['*'] ∧ !quoted)) then
          if quoted then return [.several s.params]
          else return [.loose ((s.separators.take 1).intercalate s.params)]
        else
          match value with
          | some v => return result v
          | none =>
            if s.strictNames ∧ name ≠ ['*'] then abort (name ++ ": parameter not set".toList)
            else return result []
      let isSet (orNull : Bool) : Bool := value.any fun v => !(orNull && v.isEmpty)
      match use with
      | .value => plain
      | .length => return result (ofNat (value.getD []).length)
      | .orElse orNull raw => if isSet orNull then plain else inside raw
      | .instead orNull raw => if isSet orNull then inside raw else return result []
      | .orAssign orNull raw =>
        if isSet orNull then plain
        else do
          let v := ((← inside raw).flatMap Piece.glyphs).map Prod.fst
          assign name v
          return result v
      | .orFail orNull raw =>
        if isSet orNull then plain
        else do
          let v := ((← inside raw).flatMap Piece.glyphs).map Prod.fst
          let usual := if orNull then "parameter not set or null" else "parameter not set"
          abort (name ++ ": ".toList ++ if v.isEmpty then usual.toList else v)
      | .withoutFront longest raw => do
        match wordOf false raw with
        | .ok w =>
          return result (without false longest ((← pieces fuel w).flatMap Piece.glyphs)
            (value.getD []))
        | .error fault => abort fault.toList
      | .withoutBack longest raw => do
        match wordOf false raw with
        | .ok w =>
          return result (without true longest ((← pieces fuel w).flatMap Piece.glyphs)
            (value.getD []))
        | .error fault => abort fault.toList

/-- What the parts of a word become. -/
def pieces : Nat → Word → Run (List Piece)
  | 0, _ => throw .exhausted
  | fuel + 1, w => do return (← w.mapM fun p => piece fuel p.1 p.2).flatten

/-- The text of a word that is not split. -/
def text : Nat → Word → Run Octets
  | 0, _ => throw .exhausted
  | fuel + 1, w => do return ((← pieces fuel w).flatMap Piece.glyphs).map Prod.fst

/-- The fields that words stand for. -/
def fields : Nat → List Word → Run (List Octets)
  | 0, _ => throw .exhausted
  | fuel + 1, ws => do
    let all ← ws.mapM fun w => do
      let ps ← pieces fuel w
      let s ← get
      return (fieldsOfPieces s.separators ps).flatMap s.matching
    return all.flatten

/-- What a script writes, without the line feeds at its end. -/
def output : Nat → Octets → Run Octets
  | 0, _ => throw .exhausted
  | fuel + 1, cs => do
    let (s, n) := (← get).newBuffer []
    let streams := s.streams
    set (s.lead 1 (.buffer n))
    aside (script fuel (Script.ofText cs))
    modify fun s => { s with streams }
    let written := (← get).contentOf (.buffer n)
    modify fun s => { s with buffers := s.buffers.modify n fun _ => [] }
    return ((written.filter (· ≠ '\x00')).reverse.dropWhile (· = '\n')).reverse

/-- Leads descriptors to their targets, and says what fails. -/
def redirect : Nat → List Redirect → Run (Option Octets)
  | 0, _ => throw .exhausted
  | _, [] => return none
  | fuel + 1, r :: rs => do
    let target ← text fuel r.target
    match ← lead r.descriptor r.direction target with
    | none => redirect fuel rs
    | some fault => return some fault

/-- Runs the commands of a script. -/
def script : Nat → Script → Run Unit
  | 0, _ => throw .exhausted
  | fuel + 1, sc => do
    match sc.next with
    | .error fault => do
      modify fun s => { s with line := fault.line }
      abort fault.text.toList
    | .ok (none, _) => return
    | .ok (some c, rest) => do
      command fuel c
      script fuel rest

/-- Runs a script, and then what it has asked for at its end. -/
def whole : Nat → Octets → Run Unit
  | 0, _ => throw .exhausted
  | fuel + 1, cs => fun s =>
    match script fuel (Script.ofText cs) s with
    | (.error (.killed n), t) => (.error (.killed n), t)
    | (.error .exhausted, t) => (.error .exhausted, t)
    | (r, t) =>
      match t.traps.lookup "EXIT".toList with
      | none => (r, t)
      | some action =>
        match script fuel (Script.ofText action) { t with traps := [] } with
        | (.ok (), u) => (r, { u with status := t.status })
        | (r, u) => (r, u)

/-- Runs a command. -/
def command : Nat → Command → Run Unit
  | 0, _ => throw .exhausted
  | fuel + 1, c => do
    match c with
    | .nothing => return
    | .simple line assignments words redirects => do
      modify fun s => { s with line }
      checked (simple fuel assignments words redirects)
    | .pipe a b => checked (do
      let (s, n) := (← get).newBuffer []
      let streams := s.streams
      set (s.lead 1 (.buffer n))
      aside (tested (command fuel a))
      modify fun s => { s with streams }.lead 0 (.buffer n)
      aside (command fuel b)
      modify fun s => { s with streams, buffers := s.buffers.modify n fun _ => [] })
    | .negate a => do
      tested (command fuel a)
      finish (if (← get).status = 0 then 1 else 0)
    | .andThen a b => do
      tested (command fuel a)
      if (← get).status = 0 then command fuel b
    | .orElse a b => do
      tested (command fuel a)
      if (← get).status ≠ 0 then command fuel b
    | .inOrder a b => do
      command fuel a
      command fuel b
    | .inner a => checked (aside (command fuel a))
    | .redirected line a redirects => keepingStreams (do
      modify fun s => { s with line }
      match ← redirect fuel redirects with
      | none => command fuel a
      | some fault => do
        complainFor fault
        finish 2)
    | .choice condition body otherwise => do
      tested (command fuel condition)
      if (← get).status = 0 then command fuel body
      else do
        finish 0
        command fuel otherwise
    | .loop wanted condition body => loop fuel wanted condition body 0
    | .each name words body => do
      let values ← match words with
        | some ws => fields fuel ws
        | none => pure (← get).params
      finish 0
      each fuel name body values
    | .select subject clauses => do
      let value ← text fuel subject
      finish 0
      select fuel value clauses
    | .define name body => do
      modify fun s => { s with functions := (name, body) :: s.functions }
      finish 0

/-- Runs a loop.  `status` is that of the last turn. -/
def loop : Nat → Bool → Command → Command → Nat → Run Unit
  | 0, _, _, _, _ => throw .exhausted
  | fuel + 1, wanted, condition, body, status => do
    tested (command fuel condition)
    if ((← get).status = 0) = wanted then do
      if ← turn (command fuel body) then loop fuel wanted condition body (← get).status
    else finish status

/-- Runs a body for each of several values. -/
def each : Nat → Octets → Command → List Octets → Run Unit
  | 0, _, _, _ => throw .exhausted
  | _, _, _, [] => return
  | fuel + 1, name, body, v :: vs => do
    assign name v
    if ← turn (command fuel body) then each fuel name body vs

/-- Runs the first clause with a pattern that matches. -/
def select : Nat → Octets → List (List Word × Command) → Run Unit
  | 0, _, _ => throw .exhausted
  | _, _, [] => return
  | fuel + 1, value, (patterns, body) :: rest => do
    let hits ← patterns.mapM fun p => do
      return (patternOf ((← pieces fuel p).flatMap Piece.glyphs)).matchesAll value
    if hits.any id then command fuel body else select fuel value rest

/-- Runs a simple command. -/
def simple : Nat → List (Octets × Word) → List Word → List Redirect → Run Unit
  | 0, _, _, _ => throw .exhausted
  | fuel + 1, assignments, words, redirects => do
    let args ← fields fuel words
    let values ← assignments.mapM fun a => do return (a.1, ← text fuel a.2)
    match args with
    | [] => keepingStreams (do
      let substitutes := (words ++ assignments.map Prod.snd).any fun w =>
        w.any fun p => match p.1 with | .command _ => true | _ => false
      values.forM fun v => assign v.1 v.2
      if !substitutes then finish 0
      match ← redirect fuel redirects with
      | none => return
      | some fault => do
        complainFor fault
        finish 2)
    | name :: args => do
      let act := withRedirects fuel name args values redirects
      -- only here do the script's own descriptors stay led elsewhere
      if name = "exec".toList ∧ args.isEmpty then act else keepingStreams act

/-- Runs a command by its name, its descriptors led to their targets. -/
def withRedirects :
    Nat → Octets → List Octets → List (Octets × Octets) → List Redirect → Run Unit
  | 0, _, _, _, _ => throw .exhausted
  | fuel + 1, name, args, values, redirects => do
    let special := specialNames.contains (String.ofList name)
    match ← redirect fuel redirects with
    | some fault => if special then abort fault else do
      complainFor fault
      finish 2
    | none =>
      if special then do
        values.forM fun v => assign v.1 v.2
        if name = "exec".toList then exec fuel args else ownCommand fuel (String.ofList name) args
      else if values.isEmpty then invoke fuel name args
      else do
        let before := (← get).bindings
        values.forM fun v => modify fun s => s.assign v.1 v.2 true
        invoke fuel name args
        modify fun s => { s with bindings := before }

/-- Runs something by its name: a function, a utility that a shell has of its own, or a program. -/
def invoke : Nat → Octets → List Octets → Run Unit
  | 0, _, _ => throw .exhausted
  | fuel + 1, name, args => do
    let s ← get
    match s.functions.lookup name with
    | some body => called args (command fuel body)
    | none =>
      match ownUtilities.lookup (String.ofList name) with
      | some f => utility f (s.name ++ ": ".toList ++ ofNat s.line ++ ": ".toList ++ name) args
      | none => ordinary fuel name args

/-- Runs one of the commands that work on the script itself, or a program. -/
def ordinary : Nat → Octets → List Octets → Run Unit
  | 0, _, _ => throw .exhausted
  | fuel + 1, name, args => do
    match String.ofList name with
    | "cd" => do
      let s ← get
      let target := toText (args.headD ['/'])
      match s.tree.find target, s.tree.resolve target with
      | .ok .directory, .ok place =>
        set { s with tree := { s.tree with workDir := place }, status := 0 }
      | _, _ => do
        complain ("cd: can't cd to ".toList ++ args.headD [])
        finish 2
    | "read" => readLine args
    | "local" => exportAll args
    | "wait" | "umask" | "ulimit" | "hash" | "alias" => finish 0
    | "kill" => kill fuel args
    | "type" => do
      let known ← args.mapM describe
      finish (if known.all id then 0 else 127)
    | "command" => do
      match args with
      | ['-', 'v'] :: n :: _ | ['-', 'V'] :: n :: _ => do
        let s ← get
        let known := ownUtilities.any (·.1 = String.ofList n) ||
          specialNames.contains (String.ofList n) || s.functions.any (·.1 = n)
        if known then do
          write (n ++ ['\n'])
          finish 0
        else
          match s.findProgram n with
          | some path => do
            write (ofText path ++ ['\n'])
            finish 0
          | none => finish 127
      | n :: args => invoke fuel n args
      | [] => finish 0
    | _ => program fuel name args

/-- Runs one of the commands that a script may not do without. -/
def ownCommand : Nat → String → List Octets → Run Unit
  | 0, _, _ => throw .exhausted
  | fuel + 1, name, args => do
    match name with
    | "exit" => do
      let n ← countArgument name args (← get).status
      finish (n % 256)
      throw .exit
    | "return" => do
      let n ← countArgument name args (← get).status
      finish (n % 256)
      throw .back
    | "break" => do
      let n ← countArgument name args 1
      finish 0
      if 0 < (← get).loops then throw (.leave n)
    | "continue" => do
      let n ← countArgument name args 1
      finish 0
      if 0 < (← get).loops then throw (.again n)
    | "eval" => do
      finish 0
      carriedOutFor name.toList (script fuel (Script.ofText ([' '].intercalate args)))
    | "." => do
      let path := toText (args.headD [])
      match (← get).tree.read path with
      | .ok bytes =>
        called (← get).params <|
          carriedOutFor (args.headD []) (script fuel (Script.ofText (ofBytes bytes)))
      | .error f => abort (".: cannot open ".toList ++ args.headD [] ++ ": ".toList ++
          (redirectFault "open" f).toList)
    | "set" => setOptions args
    | "shift" => do
      let n ← countArgument name args 1
      if (← get).params.length < n then abort "shift: can't shift that many".toList
      else modify fun s => { s with params := s.params.drop n, status := 0 }
    | "export" | "readonly" => exportAll (args.filter fun a => a.head? ≠ some '-')
    | "unset" => do
      args.forM fun a => modify fun s =>
        { s.unset a with functions := s.functions.filter (·.1 ≠ a) }
      finish 0
    | "trap" => trap args
    | _ => finish 0

/-- Sends a signal.  Only the script itself can be reached. -/
def kill : Nat → List Octets → Run Unit
  | 0, _ => throw .exhausted
  | fuel + 1, args => do
    let (sig, targets) : Option Nat × List Octets := match args with
      | ['-', 's'] :: n :: rest => (signal? n, rest)
      | ('-' :: n) :: rest => (signal? n, rest)
      | rest => (some 15, rest)
    let s ← get
    match sig with
    | none => do
      complain ("kill: Illegal option ".toList ++ (args.headD []).take 2)
      finish 2
    | some n =>
      if targets.contains (ofNat s.process) then do
        finish 0
        match s.traps.lookup (ofNat n) with
        | some action => script fuel (Script.ofText action)
        | none => if unheeded.contains n then return else throw (.killed n)
      else do
        complain "kill: No such process\n".toList
        finish 1

/-- Runs a program in the stead of the script, or leads the script's own descriptors. -/
def exec : Nat → List Octets → Run Unit
  | 0, _ => throw .exhausted
  | fuel + 1, args => do
    match args with
    | [] => finish 0
    | name :: args => do
      match (← get).findProgram name with
      | none => missing ("exec: ".toList ++ name)
      | some path => do
        match ← start fuel path name args with
        | none => throw .exit
        | some .notFound => missing ("exec: ".toList ++ name)
        | some f => do
          complain ("exec: ".toList ++ name ++ ": ".toList ++ f.title.toList)
          finish 126
          throw .exit
where
  missing (name : Octets) : Run Unit := do
    complainFor (name ++ ": not found".toList)
    finish 127
    throw .exit

/-- Runs a program as a process of its own. -/
def program : Nat → Octets → List Octets → Run Unit
  | 0, _, _ => throw .exhausted
  | fuel + 1, name, args => do
    let missing : Run Unit := do
      complainFor (name ++ ": not found".toList)
      finish 127
    match (← get).findProgram name with
    | none => missing
    | some path => do
      let s ← get
      match s.tree.find path with
      | .error _ => missing
      | .ok (.file bytes true) =>
        -- a file that names no program to read it is taken as a script
        match interpreter? bytes with
        | some _ => process id (started fuel path name args)
        | none => process (fun s => { s with name, params := args }) (whole fuel (ofBytes bytes))
      | .ok (.utility _) => process id (started fuel path name args)
      | .ok _ => do
        complainFor (name ++ ": Permission denied".toList)
        finish 126

/-- Runs what stands at a path, or complains. -/
def started : Nat → String → Octets → List Octets → Run Unit
  | 0, _, _, _ => throw .exhausted
  | fuel + 1, path, name, args => do
    match ← start fuel path name args with
    | none => return
    | some f => do
      complainFor (name ++ ": ".toList ++
        (match f with | .notFound => "not found" | f => f.title).toList)
      finish (if f = .notFound then 127 else 126)

/-- Runs what stands at a path under a name, and gives the fault if it cannot be started. -/
def start : Nat → String → Octets → List Octets → Run (Option IoFault)
  | 0, _, _, _ => throw .exhausted
  | fuel + 1, path, name, args => do
    match (← get).tree.find path with
    | .error f => return some f
    | .ok .directory | .ok .sink => return some .permissionDenied
    | .ok (.utility u) => do
      builtIn fuel u name args
      return none
    | .ok (.file bytes executable) =>
      if !executable then return some .permissionDenied
      else
        match interpreter? bytes with
        | some (reader, more) => start fuel reader (ofText reader) (more ++ ofText path :: args)
        | none => return some .badFormat

/-- Runs a program of the system. -/
def builtIn : Nat → String → Octets → List Octets → Run Unit
  | 0, _, _, _ => throw .exhausted
  | fuel + 1, u, name, args => do
    match u with
    | "sh" | "dash" | "bash" => shell fuel name args
    | "env" => do
      let sets := args.takeWhile fun a => a.contains '=' && a.head? ≠ some '='
      sets.forM fun a => modify fun s =>
        s.assign (a.takeWhile (· ≠ '=')) ((a.dropWhile (· ≠ '=')).drop 1) true
      match args.drop sets.length with
      | [] => finish 0
      | program :: args => do
        match (← get).findProgram program with
        | none => lost name program
        | some path => do
          match ← start fuel path program args with
          | none => return
          | some .notFound => lost name program
          | some f => do
            modify fun s => s.write 2 (name ++ ": '".toList ++ program ++ "': ".toList ++
              f.title.toList ++ ['\n'])
            finish 126
    | "kill" => kill fuel args
    | _ =>
      match Utility.find? u with
      | some f => utility f name args
      | none => finish 127
where
  lost (name program : Octets) : Run Unit := do
    modify fun s => s.write 2 (name ++ ": '".toList ++ program ++
      "': No such file or directory\n".toList)
    finish 127

/-- Runs a shell: on a text that it is given, on a file, or on its input. -/
def shell : Nat → Octets → List Octets → Run Unit
  | 0, _, _ => throw .exhausted
  | fuel + 1, name, args => do
    modify fun s =>
      { s with name, functions := [], traps := [], line := 0, caller := [], loops := 0 }
    let flags := args.takeWhile fun a => 1 < a.length && a.head? = some '-' && a ≠ "--".toList
    let rest := args.drop flags.length
    let rest := if rest.head? = some "--".toList then rest.drop 1 else rest
    flags.forM fun a => setOptions [a]
    let letters := flags.flatten
    match letters.contains 'c', rest with
    | true, [] => abort "-c requires an argument".toList
    | true, cs :: rest => do
      modify fun s => { s with name := rest.headD s.name, params := rest.drop 1 }
      whole fuel cs
    | false, path :: rest =>
      if letters.contains 's' then fromInput fuel (path :: rest)
      else do
        match (← get).tree.read (toText path) with
        | .error .isDirectory => return
        | .error f => abort ("cannot open ".toList ++ path ++ ": ".toList ++
            (redirectFault "open" f).toList)
        | .ok bytes => do
          modify fun s => { s with name := path, params := rest }
          whole fuel (ofBytes bytes)
    | false, [] => fromInput fuel []

/-- Runs the input as a script. -/
def fromInput : Nat → List Octets → Run Unit
  | 0, _ => throw .exhausted
  | fuel + 1, params => do
    let cs := (← get).content 0
    modify fun s => { s.leave 0 [] with params }
    whole fuel cs

end

end Run

end PlcAudit.Shell
