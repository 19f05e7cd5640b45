import PlcAudit.Shell.State

/-!
# Redirections

* `Run.lead`: opens a target and leads a descriptor to it, or says why it cannot.
-/

namespace PlcAudit.Shell

/-- The wording of a fault of a redirection. -/
def redirectFault (action : String) (f : IoFault) : String :=
  match f with
  | .notFound | .notDirectory => if action = "open" then "No such file" else "Directory nonexistent"
  | f => f.title

namespace Run

/-- Opens a target in a direction. -/
def lead (descriptor : Nat) (direction : Direction) (target : Octets) : Run (Option Octets) := do
  let s ← get
  let path := toText target
  let fault (action : String) (f : IoFault) : Option Octets :=
    some (("cannot " ++ action ++ " ").toList ++ target ++ ": ".toList ++
      (redirectFault action f).toList)
  let create (bytes : List UInt8) (executable : Bool) : Run (Option Octets) :=
    match s.tree.resolve path, s.tree.write path (.file bytes executable) with
    | .ok place, .ok tree => do
      let x : Stream := if tree.nodeAt? place = some .sink then .nowhere else .file place
      set ({ s with tree }.lead descriptor x)
      return none
    | .error f, _ => return fault "create" f
    | _, .error f => return fault "create" f
  match direction with
  | .from =>
    match s.tree.read path with
    | .ok bytes =>
      let (s, n) := s.newBuffer (ofBytes bytes)
      set (s.lead descriptor (.buffer n))
      return none
    | .error .isDirectory =>
      set (s.lead descriptor .nowhere)
      return none
    | .error f => return fault "open" f
  | .into =>
    match s.tree.find path with
    | .ok (.file _ x) => create [] x
    | _ => create [] false
  | .after | .both =>
    match s.tree.find path with
    | .ok (.file bytes x) => create bytes x
    | _ => create [] false
  | .same =>
    if target = ['-'] then
      set (s.close descriptor)
      return none
    else
      match (toNat? target).bind fun n => s.streams.lookup n with
      | some x =>
        set (s.lead descriptor x)
        return none
      | none => return some (target ++ ": Bad file descriptor".toList)
  | .here =>
    let (s, n) := s.newBuffer target
    set (s.lead descriptor (.buffer n))
    return none

end Run

end PlcAudit.Shell
