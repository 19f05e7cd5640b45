import PlcAudit.CommandLine.Check

/-!
# The program

* `Invocation.perform`: carries out what is asked for.
-/

namespace PlcAudit

/-- Shows the settings of the working directory. -/
def showSettings (tree : FileTree) : Conclusion :=
  { result := .ok .success, output := (Settings.load tree ".").toToml }

/-- Carries out what is asked for. -/
def Invocation.perform (launch : Launcher) (h : Host) (colour : Bool) : Invocation → Conclusion
  | check r => PlcAudit.check launch h colour r
  | config => showSettings h.tree

end PlcAudit
