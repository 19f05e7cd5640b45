import PlcAudit.CommandLine.Check
import PlcAudit.Proofs.Entry.Output

/-!
# What can keep an audit from its analysis

An audit takes in a source, a policy and a command before the engine is needed, and it looks at the
text of the source last.  Four things can be wrong with them.  They are described here by the files
and the arguments alone, and the first of them that is there decides how the intake ends.

* `Obstacle`, `Obstacle.Present`, `Obstacle.Decides`: the four, and which of them decides.
* `TakenIn`: what is taken in when the first three are not there.
* `Intake.of_eq_ok_iff`: an intake succeeds exactly with what is taken in.
* `Intake.of_source`, `Intake.of_policy`, `Intake.of_command`: how it fails otherwise.
-/

namespace PlcAudit

/-- The words of the engine's command, which the arguments may give in the stead of the settings.
There are none when a quote is not closed. -/
def commandWords? (tree : FileTree) (r : CheckRequest) : Option (List String) :=
  match r.engine with
  | some line => Command.splitWords line
  | none => (Settings.load tree ".").engine.command.words?

/-! ## Obstacles -/

/-- What can keep an audit from its analysis, in the order in which it is looked at. -/
inductive Obstacle where
  | source
  | policy
  | command
  | emptyText
  deriving DecidableEq, Repr

namespace Obstacle

/-- Whether an obstacle is there: the file has an extension that is not taken, or cannot be read; a
policy is named and cannot be read as text; the command has a quote that is not closed; the text of
the source is empty. -/
def Present (tree : FileTree) (r : CheckRequest) : Obstacle → Prop
  | source =>
    Source.isSupported (Source.nameOf r.file) = false ∨ ∃ fault, tree.read r.file = .error fault
  | policy => ∃ path fault, r.policy = some path ∧ tree.readText path = .error fault
  | command => commandWords? tree r = none
  | emptyText => ∃ bytes, tree.read r.file = .ok bytes ∧ Text.ofBytes bytes = ""

/-- The obstacles that are looked at before one. -/
def before : Obstacle → List Obstacle
  | source => []
  | policy => [source]
  | command => [source, policy]
  | emptyText => [source, policy, command]

/-- **An obstacle decides** when it is there and none of those before it is. -/
def Decides (tree : FileTree) (r : CheckRequest) (o : Obstacle) : Prop :=
  o.Present tree r ∧ ∀ o' ∈ o.before, ¬ o'.Present tree r

/-- The code with which the program ends when an obstacle decides.  A policy or a command that is of
no use is reported as a fault, with no code of its own. -/
def code? : Obstacle → Option Nat
  | source | emptyText => some 2
  | policy | command => none

/-- One of the obstacles decides unless none is there. -/
theorem exists_decides_or (tree : FileTree) (r : CheckRequest) :
    (∃ o : Obstacle, o.Decides tree r) ∨ ∀ o : Obstacle, ¬ o.Present tree r := by
  by_cases hsource : source.Present tree r
  · exact Or.inl ⟨source, hsource, by simp [before]⟩
  by_cases hpolicy : policy.Present tree r
  · exact Or.inl ⟨policy, hpolicy, by simp [before, hsource]⟩
  by_cases hcommand : command.Present tree r
  · exact Or.inl ⟨command, hcommand, by simp [before, hsource, hpolicy]⟩
  by_cases hempty : emptyText.Present tree r
  · exact Or.inl ⟨emptyText, hempty, by simp [before, hsource, hpolicy, hcommand]⟩
  · refine Or.inr fun o => ?_
    cases o with
    | source => exact hsource
    | policy => exact hpolicy
    | command => exact hcommand
    | emptyText => exact hempty

end Obstacle

/-! ## What is taken in -/

/-- **What is taken in** for an audit: the settings of the working directory, the file under its
name and with its bytes as text, the text of the policy if one is named, and the words of the
command. -/
structure TakenIn (tree : FileTree) (r : CheckRequest) (i : Intake) : Prop where
  settings : i.settings = Intake.settingsOf tree r
  name : i.source.name = Source.nameOf r.file
  text : ∃ bytes, tree.read r.file = .ok bytes ∧ i.source.text = Text.ofBytes bytes
  noPolicy : r.policy = none → i.policy = none
  policy : ∀ path, r.policy = some path →
    ∃ text, tree.readText path = .ok text ∧ i.policy = some text
  command : commandWords? tree r = some i.command

namespace Source

theorem read_eq_ok_iff {tree : FileTree} {path : String} {s : Source} :
    Source.read tree path = .ok s ↔ s.name = nameOf path ∧
      ∃ bytes, tree.read path = .ok bytes ∧ s.text = Text.ofBytes bytes := by
  obtain ⟨name, text, supported⟩ := s
  unfold Source.read
  by_cases hname : isSupported (nameOf path) = true
  · rw [dif_pos hname]
    cases tree.read path with
    | error fault => simp
    | ok bytes => simp [eq_comm]
  · rw [dif_neg hname]
    constructor
    · rintro ⟨⟩
    · rintro ⟨rfl, -⟩
      exact absurd supported hname

theorem exists_read_eq_error {tree : FileTree} {path : String}
    (h : isSupported (nameOf path) = false ∨ ∃ fault, tree.read path = .error fault) :
    ∃ fault, Source.read tree path = .error fault := by
  cases hread : Source.read tree path with
  | error fault => exact ⟨fault, rfl⟩
  | ok s =>
    obtain ⟨hname, bytes, hbytes, -⟩ := read_eq_ok_iff.mp hread
    rcases h with h | ⟨fault, hfault⟩
    · rw [← hname, s.supported] at h
      cases h
    · rw [hbytes] at hfault
      cases hfault

end Source

namespace Intake

variable {tree : FileTree} {r : CheckRequest}

theorem policyOf_eq_ok_iff {path p : Option String} : policyOf tree path = .ok p ↔
    (path = none → p = none) ∧
      ∀ q, path = some q → ∃ text, tree.readText q = .ok text ∧ p = some text := by
  cases path with
  | none => simp [policyOf, eq_comm]
  | some q =>
    simp only [policyOf]
    cases hread : tree.readText q with
    | error fault => simp [hread]
    | ok text => simp [hread, eq_comm]

theorem exists_policyOf_eq_error (h : Obstacle.policy.Present tree r) :
    ∃ m, policyOf tree r.policy = .error (.other m) := by
  obtain ⟨path, fault, hpath, hfault⟩ := h
  rw [hpath]
  simp only [policyOf, hfault]
  exact ⟨_, rfl⟩

/-- The format of the report has nothing to do with the engine. -/
theorem engine_settingsOf : (settingsOf tree r).engine = (Settings.load tree ".").engine := by
  unfold settingsOf
  split <;> rfl

theorem commandOf_eq_ok_iff {ws : List String} :
    commandOf r.engine (settingsOf tree r).engine.command = .ok ws ↔
      commandWords? tree r = some ws := by
  rw [engine_settingsOf]
  unfold commandOf commandWords?
  cases r.engine with
  | some line => cases hwords : Command.splitWords line <;> simp [hwords]
  | none => cases (Settings.load tree ".").engine.command.words? <;> simp

theorem exists_commandOf_eq_error (h : Obstacle.command.Present tree r) :
    ∃ m, commandOf r.engine (settingsOf tree r).engine.command = .error (.other m) := by
  rw [engine_settingsOf]
  unfold Obstacle.Present commandWords? at h
  unfold commandOf
  cases hengine : r.engine with
  | some line =>
    simp only [hengine] at h ⊢
    rw [h]
    exact ⟨_, rfl⟩
  | none =>
    simp only [hengine] at h ⊢
    rw [h]
    exact ⟨_, rfl⟩

/-- **An intake succeeds** exactly with what is taken in. -/
theorem of_eq_ok_iff {i : Intake} : Intake.of tree r = .ok i ↔ TakenIn tree r i := by
  simp only [Intake.of, bind_eq_ok_iff, pure_eq_ok_iff, mapError_eq_ok_iff, Source.read_eq_ok_iff,
    policyOf_eq_ok_iff, commandOf_eq_ok_iff]
  constructor
  · rintro ⟨s, ⟨hname, htext⟩, p, ⟨hnone, hsome⟩, ws, hws, rfl⟩
    exact ⟨rfl, hname, htext, hnone, hsome, hws⟩
  · intro h
    exact ⟨i.source, ⟨h.name, h.text⟩, i.policy, ⟨h.noPolicy, h.policy⟩, i.command, h.command,
      by rw [← h.settings]⟩

/-! ## How an intake ends -/

/-- A source that is not in the way is read. -/
theorem exists_source_of_not_present (h : ¬ Obstacle.source.Present tree r) :
    ∃ s, Source.read tree r.file = .ok s := by
  simp only [Obstacle.Present, not_or, not_exists, Bool.not_eq_false] at h
  cases hread : tree.read r.file with
  | error fault => exact absurd hread (h.2 fault)
  | ok bytes =>
    exact ⟨⟨Source.nameOf r.file, Text.ofBytes bytes, h.1⟩,
      Source.read_eq_ok_iff.mpr ⟨rfl, bytes, hread, rfl⟩⟩

/-- A policy that is not in the way is read, if one is named. -/
theorem exists_policy_of_not_present (h : ¬ Obstacle.policy.Present tree r) :
    ∃ p, policyOf tree r.policy = .ok p := by
  cases hpolicy : r.policy with
  | none => exact ⟨none, rfl⟩
  | some path =>
    cases hread : tree.readText path with
    | error fault => exact absurd ⟨path, fault, hpolicy, hread⟩ h
    | ok text =>
      refine ⟨some text, ?_⟩
      simp only [policyOf, hread]

/-- A source that cannot be used is a fault of the input. -/
theorem of_source (h : Obstacle.source.Decides tree r) :
    ∃ m, Intake.of tree r = .error (.input m) := by
  obtain ⟨fault, hfault⟩ := Source.exists_read_eq_error h.1
  refine ⟨fault.message, ?_⟩
  simp only [Intake.of, hfault]
  rfl

/-- A policy that cannot be read is another fault. -/
theorem of_policy (h : Obstacle.policy.Decides tree r) :
    ∃ m, Intake.of tree r = .error (.other m) := by
  obtain ⟨s, hs⟩ := exists_source_of_not_present (h.2 .source (by decide))
  obtain ⟨m, hm⟩ := exists_policyOf_eq_error h.1
  refine ⟨m, ?_⟩
  simp only [Intake.of, hs, hm]
  rfl

/-- So is a command with a quote that is not closed. -/
theorem of_command (h : Obstacle.command.Decides tree r) :
    ∃ m, Intake.of tree r = .error (.other m) := by
  obtain ⟨s, hs⟩ := exists_source_of_not_present (h.2 .source (by decide))
  obtain ⟨p, hp⟩ := exists_policy_of_not_present (h.2 .policy (by decide))
  obtain ⟨m, hm⟩ := exists_commandOf_eq_error h.1
  refine ⟨m, ?_⟩
  simp only [Intake.of, hs, hp, hm]
  rfl

/-- An intake that nothing stands in the way of succeeds. -/
theorem exists_takenIn (hsource : ¬ Obstacle.source.Present tree r)
    (hpolicy : ¬ Obstacle.policy.Present tree r) (hcommand : ¬ Obstacle.command.Present tree r) :
    ∃ i, TakenIn tree r i := by
  obtain ⟨s, hs⟩ := exists_source_of_not_present hsource
  obtain ⟨p, hp⟩ := exists_policy_of_not_present hpolicy
  obtain ⟨ws, hws⟩ := Option.ne_none_iff_exists'.mp hcommand
  obtain ⟨hname, htext⟩ := Source.read_eq_ok_iff.mp hs
  obtain ⟨hnone, hsome⟩ := policyOf_eq_ok_iff.mp hp
  exact ⟨⟨settingsOf tree r, s, p, ws⟩, rfl, hname, htext, hnone, hsome, hws⟩

end Intake

namespace TakenIn

variable {tree : FileTree} {r : CheckRequest} {i : Intake}

/-- The text that was taken in is the one that is looked at. -/
theorem emptyText_iff (h : TakenIn tree r i) :
    Obstacle.emptyText.Present tree r ↔ i.source.text = "" := by
  obtain ⟨bytes, hbytes, htext⟩ := h.text
  rw [htext]
  constructor
  · rintro ⟨bytes', hbytes', hempty⟩
    rw [hbytes] at hbytes'
    cases hbytes'
    exact hempty
  · exact fun hempty => ⟨bytes, hbytes, hempty⟩

/-- Once everything is taken in, only an empty text can be in the way. -/
theorem eq_emptyText_of_present (h : TakenIn tree r i) {o : Obstacle} (ho : o.Present tree r) :
    o = .emptyText := by
  cases o with
  | source =>
    obtain ⟨fault, hfault⟩ := Source.exists_read_eq_error ho
    rw [Source.read_eq_ok_iff.mpr ⟨h.name, h.text⟩] at hfault
    cases hfault
  | policy =>
    obtain ⟨path, fault, hpath, hfault⟩ := ho
    obtain ⟨text, htext, -⟩ := h.policy path hpath
    rw [htext] at hfault
    cases hfault
  | command =>
    have hnone : commandWords? tree r = none := ho
    rw [h.command] at hnone
    cases hnone
  | emptyText => rfl

/-- What is taken in is determined. -/
theorem eq (h : TakenIn tree r i) {i' : Intake} (h' : TakenIn tree r i') : i' = i :=
  Except.ok.inj ((Intake.of_eq_ok_iff.mpr h').symm.trans (Intake.of_eq_ok_iff.mpr h))

end TakenIn

end PlcAudit
