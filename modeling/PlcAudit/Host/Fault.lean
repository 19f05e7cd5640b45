/-!
# What the host refuses

* `IoFault`: why a file cannot be read, or a program not started or not waited for, with its wording
  in `IoFault.message`.
-/

namespace PlcAudit

/-- Why the host refuses to read a file, to start a program or to wait for its end. -/
inductive IoFault where
  | notFound
  | permissionDenied
  | badFormat
  | notDirectory
  | isDirectory
  | nameTooLong
  | inputOutput
  | nulInPath
  | nulInArgument
  | invalidUtf8
  deriving DecidableEq, Repr

namespace IoFault

/-- What is wrong. -/
def title : IoFault → String
  | notFound => "No such file or directory"
  | permissionDenied => "Permission denied"
  | badFormat => "Exec format error"
  | notDirectory => "Not a directory"
  | isDirectory => "Is a directory"
  | nameTooLong => "File name too long"
  | inputOutput => "Input/output error"
  | nulInPath => "file name contained an unexpected NUL byte"
  | nulInArgument => "nul byte found in provided data"
  | invalidUtf8 => "stream did not contain valid UTF-8"

/-- The number by which the system knows a fault that it found itself. -/
def number? : IoFault → Option Nat
  | notFound => some 2
  | inputOutput => some 5
  | badFormat => some 8
  | permissionDenied => some 13
  | notDirectory => some 20
  | isDirectory => some 21
  | nameTooLong => some 36
  | nulInPath | nulInArgument | invalidUtf8 => none

/-- The wording, with the number of the fault. -/
def message (f : IoFault) : String :=
  match f.number? with
  | some n => f.title ++ " (os error " ++ toString n ++ ")"
  | none => f.title

end IoFault

end PlcAudit
