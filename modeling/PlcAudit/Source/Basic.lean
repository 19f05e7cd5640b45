import PlcAudit.Host.FileTree
import PlcAudit.Source.Lines

/-!
# Sources

A source is a program text with the name of its file.  Only the languages for which engines have a
reader are taken: structured control language, structured text, the exchange format, and the two
instruction lists.  Any other name is refused before anything is read.

* `Source.isSupported`: the names that are taken.
* `Source`: a source, under such a name.
* `Source.ofText`: a source from a text.
* `Source.read`: a source from a file, with bytes that are no text replaced.
-/

namespace PlcAudit

namespace Source

/-- The extensions that are taken, in lower case. -/
def extensions : List (List Char) :=
  ["scl".toList, "st".toList, "xml".toList, "il".toList, "awl".toList]

/-- What follows the last full stop of a name, if there is one. -/
def extension? (name : List Char) : Option (List Char) :=
  if '.' ∈ name then some (name.reverse.takeWhile (· ≠ '.')).reverse else none

/-- Whether a name ends with a full stop and an extension that is taken, in any ASCII case. -/
def isSupported (name : String) : Bool :=
  match extension? name.toList with
  | some ext => extensions.contains (ext.map Char.toLower)
  | none => false

end Source

/-- A program text and the name of its file, which is a name that is taken. -/
structure Source where
  name : String
  text : String
  supported : Source.isSupported name = true
  deriving DecidableEq, Repr

/-- Why a source is refused. -/
inductive SourceFault where
  | unsupportedExtension (name : String)
  | unreadable (fault : IoFault) (path : String)
  deriving DecidableEq, Repr

namespace SourceFault

/-- The key by which a fault is known in data. -/
def key : SourceFault → String
  | unsupportedExtension _ => "unsupported_extension"
  | unreadable _ _ => "io"

/-- The wording of a fault. -/
def message : SourceFault → String
  | unsupportedExtension name =>
    "Unsupported file type '" ++ name ++ "'. Expected one of: .scl, .st, .xml, .il, .awl"
  | unreadable fault path => "I/O error: " ++ fault.message ++ " (path: " ++ path ++ ")"

end SourceFault

namespace Source

/-- Every source has a name. -/
theorem name_ne_empty (s : Source) : s.name ≠ "" := by
  intro h
  have hs := s.supported
  rw [h] at hs
  exact Bool.false_ne_true hs

/-- A source from a text that was obtained elsewhere. -/
def ofText (name text : String) : Except SourceFault Source :=
  if h : isSupported name then .ok ⟨name, text, h⟩ else .error (.unsupportedExtension name)

/-- The name that a file is known by: the last component of its path, or the path itself. -/
def nameOf (path : String) : String := (Path.fileName? path).getD path

/-- A source from a file.  The name is looked at first, so a refused one is never read. -/
def read (t : FileTree) (path : String) : Except SourceFault Source :=
  let name := nameOf path
  if h : isSupported name then
    match t.read path with
    | .ok bytes => .ok ⟨name, Text.ofBytes bytes, h⟩
    | .error fault => .error (.unreadable fault path)
  else .error (.unsupportedExtension name)

/-- A source without any text. -/
def isEmpty (s : Source) : Bool := s.text.isEmpty

/-- The line of a source with the given number, if there is one. -/
def line? (s : Source) (n : Option UInt32) : Option String := lineAt? s.text n

end Source

end PlcAudit
