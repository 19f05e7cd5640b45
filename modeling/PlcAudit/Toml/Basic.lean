/-!
# TOML values

The values of a configuration text.  A table remembers how it came to be, because that decides what
may still be added to it.

* `Origin`: how a table was written.
* `Value`: a value.
* `Entries`: the keys of a table and their values, in order.
-/

namespace PlcAudit.Toml

/-- How a table was written. -/
inductive Origin where
  /-- By a header of its own; also the outermost table. -/
  | header
  /-- Only as part of the path in some header. -/
  | implied
  /-- As part of a dotted key. -/
  | dotted
  /-- Between braces; such a table is complete. -/
  | inline
  deriving DecidableEq, Repr, Inhabited

/-- A value.  Fractional numbers and times are kept as they are spelled. -/
inductive Value where
  | string (s : String)
  | integer (n : Int)
  | float (spelling : String)
  | boolean (b : Bool)
  | time (spelling : String)
  | array (items : List Value)
  | table (origin : Origin) (entries : List (String × Value))
  /-- An array of tables, each written under a header of its own. -/
  | tables (elements : List (List (String × Value)))
  deriving Repr, Inhabited

/-- The keys of a table and their values, in the order in which they were written. -/
abbrev Entries := List (String × Value)

end PlcAudit.Toml
