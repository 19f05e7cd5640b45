import PlcAudit.Toml.Basic

/-!
# Building TOML tables

A table is built from headers and keys.  A key is given a value once; a table has at most one
header; and what was written between braces, or as an array in brackets, is complete.

* `update`: changes the table at the end of a path.
* `assign`, `assignAt`: gives a key its value.
* `openTable`, `openElement`: what a header does.
-/

namespace PlcAudit.Toml

/-- The value of a key. -/
def Entries.get? (es : Entries) (k : String) : Option Value := es.lookup k

/-- Of two entries with one key the first counts. -/
@[simp] theorem Entries.get?_cons (e : String × Value) (es : Entries) (k : String) :
    Entries.get? (e :: es) k = if k = e.1 then some e.2 else es.get? k := by
  rw [get?, get?, List.lookup_cons]
  split
  · next h => rw [if_pos (beq_iff_eq.mp h)]
  · next h => rw [if_neg (beq_eq_false_iff_ne.mp h)]

/-- Gives a key another value, in its old place. -/
def Entries.replace (es : Entries) (k : String) (v : Value) : Entries :=
  es.map fun e => if e.1 = k then (k, v) else e

/-- Adds a key that is new. -/
def Entries.add? (es : Entries) (k : String) (v : Value) : Option Entries :=
  if (es.get? k).isSome then none else some (es ++ [(k, v)])

/-- Changes the table at the end of a path.  Tables that are missing on the way are made, as
`dotted` ones when the path is part of a dotted key, and as `implied` ones when it is part of a
header.  A dotted key does not reach into a table with a header of its own.  Of an array of tables
the last one is meant. -/
def update (dotted : Bool) (f : Origin → Entries → Option Entries) :
    Origin → List String → Entries → Option Entries
  | origin, [], es => f origin es
  | _, k :: ks, es =>
    match es.get? k with
    | none => do
      let made := if dotted then .dotted else .implied
      let sub ← update dotted f made ks []
      return es ++ [(k, .table made sub)]
    | some (.table origin sub) => do
      if origin = .inline ∨ (dotted ∧ origin = .header) then none
      let sub ← update dotted f origin ks sub
      return es.replace k (.table origin sub)
    | some (.tables elements) => do
      let sub ← update dotted f .header ks (← elements.getLast?)
      return es.replace k (.tables (elements.dropLast ++ [sub]))
    | some _ => none

/-- Gives the last part of a path its value in the table that the parts before it lead to.  That
table must come from dotted keys exactly when there are such parts. -/
def assignFrom (origin : Origin) (path : List String) (v : Value) (es : Entries) :
    Option Entries := do
  let k ← path.getLast?
  let way := path.dropLast
  update true
    (fun o es => if (o = .dotted) ↔ way = [] then none else es.add? k v) origin way es

/-- Gives a key its value in a table that is being written. -/
def assign (path : List String) (v : Value) (es : Entries) : Option Entries :=
  assignFrom .header path v es

/-- Gives a key its value in the table with the header `here`. -/
def assignAt (here path : List String) (v : Value) (es : Entries) : Option Entries :=
  update false (fun o es => assignFrom o path v es) .header here es

/-- Opens the table with a header.  It may be known from other headers, but not have one. -/
def openTable (path : List String) (es : Entries) : Option Entries := do
  let k ← path.getLast?
  update false
    (fun _ es =>
      match es.get? k with
      | none => es.add? k (.table .header [])
      | some (.table .implied sub) => some (es.replace k (.table .header sub))
      | some _ => none)
    .header path.dropLast es

/-- Opens a further table of an array of tables. -/
def openElement (path : List String) (es : Entries) : Option Entries := do
  let k ← path.getLast?
  update false
    (fun _ es =>
      match es.get? k with
      | none => es.add? k (.tables [[]])
      | some (.tables elements) => some (es.replace k (.tables (elements ++ [[]])))
      | some _ => none)
    .header path.dropLast es

end PlcAudit.Toml
