import PlcAudit.Shell.Utility.Files
import PlcAudit.Shell.Utility.Print
import PlcAudit.Shell.Utility.Search
import PlcAudit.Shell.Utility.Stream

/-!
# The utilities of the system

* `Utility.all`: the utilities by name.
* `Utility.find?`: a utility.
-/

namespace PlcAudit.Shell.Utility

/-- The path of the working directory. -/
def pwd (t : Task) : Done := t.wrote (ofText ("/" ++ "/".intercalate t.tree.workDir) ++ ['\n'])

/-- A utility that cannot do without operands. -/
def needingOperands (f : Task → Done) (t : Task) : Done :=
  if t.args.isEmpty then
    t.fail 1 ("missing operand\nTry '".toList ++ t.name ++ " --help' for more information.".toList)
  else f t

/-- The utilities by name. -/
def all : List (String × (Task → Done)) :=
  [("basename", needingOperands basename), ("cat", cat), ("cp", needingOperands (copy false)),
    ("cut", cut), ("dirname", needingOperands dirname), ("echo", echo),
    ("false", fun t => t.exit 1), ("grep", grep), ("head", head), ("ls", ls),
    ("mkdir", needingOperands mkdir), ("mv", needingOperands (copy true)),
    ("printf", needingOperands printf), ("pwd", pwd), ("rev", rev), ("rm", needingOperands rm),
    ("sed", sed), ("seq", seq), ("sleep", fun t => t.exit 0), ("sort", sort), ("tac", tac),
    ("tail", tail), ("tee", tee), ("test", test), ("[", test), ("touch", touch),
    ("tr", needingOperands tr), ("true", fun t => t.exit 0), ("uniq", uniq), ("wc", wc)]

/-- A utility. -/
def find? (name : String) : Option (Task → Done) := all.lookup name

end PlcAudit.Shell.Utility
