import PlcAudit.Shell.Octets

/-!
# Scripts

What a script is made of once it has been read.

* `Part`, `Word`: what a word is put together from.
* `Redirect`: where a descriptor is led.
* `Command`: the commands.
-/

namespace PlcAudit.Shell

/-- What is made of a parameter.  With `orNull` an empty value counts as none. -/
inductive ParameterUse where
  | value
  | length
  | orElse (orNull : Bool) (word : Octets)
  | orAssign (orNull : Bool) (word : Octets)
  | orFail (orNull : Bool) (word : Octets)
  | instead (orNull : Bool) (word : Octets)
  | withoutFront (longest : Bool) (pattern : Octets)
  | withoutBack (longest : Bool) (pattern : Octets)
  deriving Repr

/-- A part of a word.  The scripts inside of it are kept as they are written. -/
inductive Part where
  | text (s : Octets)
  | parameter (name : Octets) (use : ParameterUse)
  | command (script : Octets)
  | arithmetic (expression : Octets)
  deriving Repr

/-- The parts of a word, each with whether it is quoted. -/
abbrev Word := List (Part × Bool)

/-- The text of a word that is plain and not quoted, as names of commands in the grammar are. -/
def Word.plain? : Word → Option Octets
  | [(.text s, false)] => some s
  | _ => none

/-- How a descriptor is led to a target. -/
inductive Direction where
  | from
  | into
  | after
  | both
  /-- To where another descriptor leads, or nowhere. -/
  | same
  /-- From the text of the script itself. -/
  | here
  deriving DecidableEq, Repr

/-- A descriptor, and where it is led. -/
structure Redirect where
  descriptor : Nat
  direction : Direction
  target : Word
  deriving Repr

/-- A command.  `line` is where it begins. -/
inductive Command where
  | nothing
  | simple (line : Nat) (assignments : List (Octets × Word)) (words : List Word)
      (redirects : List Redirect)
  | pipe (first second : Command)
  | negate (c : Command)
  | andThen (first second : Command)
  | orElse (first second : Command)
  | inOrder (first second : Command)
  /-- In an environment of its own. -/
  | inner (c : Command)
  | redirected (line : Nat) (c : Command) (redirects : List Redirect)
  | choice (condition body otherwise : Command)
  /-- As long as the condition succeeds, or fails, as wanted. -/
  | loop (wanted : Bool) (condition body : Command)
  | each (name : Octets) (words : Option (List Word)) (body : Command)
  | select (subject : Word) (clauses : List (List Word × Command))
  | define (name : Octets) (body : Command)
  deriving Repr

end PlcAudit.Shell
