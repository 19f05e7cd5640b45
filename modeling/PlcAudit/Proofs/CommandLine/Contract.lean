import PlcAudit.Proofs.CommandLine.Intake
import PlcAudit.Proofs.Report.Figures
import PlcAudit.Proofs.Session.Phases

/-!
# How the audit of a file ends

Either an obstacle decides, or the engine is asked once and its answer decides.  In the first case
nothing is shown and no program is started; in the second exactly one report is shown, and the exit
says whether it has violations.  The session is seen here from its beginning to the end of its first
run, so what it shows and which calls it makes can be written down.

* `Intake.answer`, `Intake.result`, `Intake.shown`: what the engine answers, what comes of it, and
  what is shown.
* `Intake.session_of_empty`, `Intake.session_of_text`: the two ways in which the session goes.
* `Stopped`, `Analyzed`, `ExitContract`: the contract.
* `stopped_of_decides`, `analyzed_of_takenIn`, `code?_eq_of_agree`: its three parts.
* `check_keeps_contract`: it is kept.
-/

namespace PlcAudit

/-- The code with which the program ends after a command that reports no fault. -/
def Conclusion.code? (c : Conclusion) : Option Nat := c.result.toOption.map Exit.code

/-! ## The session of an audit -/

namespace Intake

variable {i : Intake} {launch : Launcher} {h : Host}

/-- What the engine is asked. -/
def request (i : Intake) : Request :=
  .of i.source.text (Session.effectivePolicy i.policy) (some i.source.name)

/-- What the engine answers when it is asked once: its output, or the fault that its program is not
found, cannot be started or waited for, or fails. -/
def answer (i : Intake) (launch : Launcher) (h : Host) : Except EngineFault String :=
  (Checker.analyze { command := i.command } launch h i.request).2.2

/-- What comes of the answer. -/
def result (i : Intake) (launch : Launcher) (h : Host) : Except Failure Report :=
  match i.answer launch h with
  | .ok output => Report.ofOutput output
  | .error fault => .error (.ofEngineFault fault)

/-- What is shown of the result. -/
def shown (i : Intake) (launch : Launcher) (h : Host) : Snapshot :=
  match i.result launch h with
  | .ok report => .success report
  | .error f => Snapshot.idle.failed f

/-- The calls of the engine: no analysis is called for when there is no program. -/
def calls (i : Intake) (h : Host) : List Call :=
  match Checker.resolve h i.command with
  | .ok _ => [.prepare, .analyze i.request]
  | .error _ => [.prepare]

theorem loaded_eq (i : Intake) : i.loaded =
    { source := some i.source, policy := Session.effectivePolicy i.policy } := rfl

theorem request?_of_empty (hi : i.source.text = "") : i.loaded.request? = none := by
  rw [loaded_eq, Session.request?]
  simp [Source.isEmpty, hi]

theorem request?_of_text (hi : i.source.text ≠ "") : i.loaded.request? = some i.request := by
  have hempty : i.source.isEmpty = false := by simpa [Source.isEmpty] using hi
  rw [loaded_eq, Session.request?]
  simp only [hempty, Bool.false_eq_true, if_false]
  rfl

/-- **Without a text** the session refuses, and the engine is left alone. -/
theorem session_of_empty (hi : i.source.text = "") :
    i.session launch h = (i.loaded, { answer := .refused .inputMissing }) := by
  rw [session, Session.step, request?_of_empty hi]
  rfl

/-- The checker that was made ready answers as one that was not. -/
theorem turn_eq (i : Intake) (launch : Launcher) (h : Host) : i.turn launch h i.request =
    { preparation := .answered ((Checker.resolve h i.command).map fun _ => ())
      analysis := .answered (i.answer launch h) } := rfl

/-- A program that is missing is what the engine answers. -/
theorem answer_of_resolve_error {fault : EngineFault}
    (hfault : Checker.resolve h i.command = .error fault) : i.answer launch h = .error fault := by
  simp only [answer, Checker.analyze, Checker.program, hfault]

/-- The run ends in its first turn, with the result. -/
theorem advance_turn (i : Intake) (launch : Launcher) (h : Host) :
    Advance.ofTurn .preparing (i.turn launch h i.request) = .ends (i.result launch h) := by
  rw [turn_eq]
  cases hresolve : Checker.resolve h i.command with
  | error fault =>
    obtain ⟨m, rfl⟩ := Checker.exists_unavailable_of_resolve hresolve
    simp only [result, answer_of_resolve_error hresolve]
    rfl
  | ok path =>
    unfold result
    cases i.answer launch h <;> rfl

theorem prepare_cons_callsEntered (i : Intake) (launch : Launcher) (h : Host) :
    .prepare :: callsEntered .preparing (i.turn launch h i.request) i.request = i.calls h := by
  rw [turn_eq, calls]
  cases Checker.resolve h i.command <;> rfl

/-- **With a text** the engine is asked once, and the session ends with the result. -/
theorem session_of_text (hi : i.source.text ≠ "") :
    i.session launch h =
      ({ i.loaded with snapshot := i.shown launch h },
        { answer := .finished (i.result launch h)
          published := [Snapshot.idle.loading, i.shown launch h]
          calls := i.calls h }) := by
  have hstart : i.session launch h = i.loaded.startRun i.request (i.turn launch h i.request) := by
    rw [session, Session.step, request?_of_text hi]
    rfl
  rw [hstart, Session.startRun_eq, advance_turn, prepare_cons_callsEntered]
  unfold shown
  cases i.result launch h <;> rfl

end Intake

/-! ## The contract -/

/-- **An obstacle decides:** the exit is that of the obstacle, nothing is shown, and what programs
do does not matter; if there is a session at all, it makes no call of the engine. -/
structure Stopped (launch : Launcher) (h : Host) (colour : Bool) (r : CheckRequest)
    (o : Obstacle) : Prop where
  code : (check launch h colour r).code? = o.code?
  silent : (check launch h colour r).output = ""
  launcher : ∀ launch', check launch' h colour r = check launch h colour r
  calls : ∀ i, Intake.of h.tree r = .ok i → (i.session launch h).2.calls = []

/-- **The engine decides:** it is asked once, its program is started once at most, and one report is
shown.  The exit is that of a fault, of violations, or of none, and every figure of the report says
the same. -/
structure Analyzed (launch : Launcher) (h : Host) (colour : Bool) (r : CheckRequest)
    (i : Intake) : Prop where
  takenIn : TakenIn h.tree r i
  answer : (i.session launch h).2.answer = .finished (i.result launch h)
  calls : (i.session launch h).2.calls = i.calls h
  start : ∀ launch' : Launcher, (∀ path, Checker.resolve h i.command = .ok path →
      launch' h path i.command.tail (Text.bytesOf i.request.wire) =
        launch h path i.command.tail (Text.bytesOf i.request.wire)) →
    check launch' h colour r = check launch h colour r
  output : (check launch h colour r).output =
    showReport i.settings i.source colour (i.shown launch h)
  failed : ∀ f, i.result launch h = .error f → (check launch h colour r).code? = some 1
  violated : ∀ report, i.result launch h = .ok report → report.groups.violations ≠ [] →
    (check launch h colour r).code? = some 6
  success : ∀ report, i.result launch h = .ok report → report.groups.violations = [] →
    (check launch h colour r).code? = some 0
  figures : ∀ report, i.result launch h = .ok report →
    ((check launch h colour r).code? = some 6 ↔ 0 < report.compliance.failedRules) ∧
      (0 < report.compliance.failedRules ↔ report.compliance.percent < 100) ∧
      (report.compliance.percent < 100 ↔ report.frequency ≠ [])

/-- **The contract of the audit of a file.**  The first obstacle decides, and without one the engine
does.  The exit depends on nothing else: another audit with the same obstacles, and with the same
answer of its engine, ends in the same way, whatever its settings are and however it is shown. -/
structure ExitContract (launch : Launcher) (h : Host) (colour : Bool) (r : CheckRequest) :
    Prop where
  stopped : ∀ o : Obstacle, o.Decides h.tree r → Stopped launch h colour r o
  analyzed : (∀ o : Obstacle, ¬ o.Present h.tree r) → ∃ i, Analyzed launch h colour r i
  cases : (∃ o : Obstacle, o.Decides h.tree r) ∨ ∀ o : Obstacle, ¬ o.Present h.tree r
  independent : ∀ (launch' : Launcher) (h' : Host) (colour' : Bool) (r' : CheckRequest),
    (∀ o : Obstacle, o.Present h'.tree r' ↔ o.Present h.tree r) →
    (∀ i i', TakenIn h.tree r i → TakenIn h'.tree r' i' →
      i'.answer launch' h' = i.answer launch h) →
    (check launch' h' colour' r').code? = (check launch h colour r).code?
  display : ∀ (json colour' : Bool),
    (check launch h colour' { r with json := json }).code? = (check launch h colour r).code?
  settings : ∀ h' : Host, h'.tree.read r.file = h.tree.read r.file →
    (∀ path, r.policy = some path → h'.tree.readText path = h.tree.readText path) →
    (commandWords? h'.tree r = none ↔ commandWords? h.tree r = none) →
    (∀ i i', TakenIn h.tree r i → TakenIn h'.tree r i' →
      i'.answer launch h' = i.answer launch h) →
    (check launch h' colour r).code? = (check launch h colour r).code?

section Cases

variable {launch : Launcher} {h : Host} {colour : Bool} {r : CheckRequest} {i : Intake}

theorem check_of_takenIn (hi : TakenIn h.tree r i) : check launch h colour r =
    concludeWith i colour (i.session launch h).1 (i.session launch h).2.answer := by
  have hof : Intake.of h.tree r = .ok i := Intake.of_eq_ok_iff.mpr hi
  unfold check
  rw [hof]

theorem check_of_empty (hi : TakenIn h.tree r i) (htext : i.source.text = "") :
    check launch h colour r = { result := .ok .invalidInput
                                diagnostics := complaint colour Failure.inputMissing.message } := by
  rw [check_of_takenIn hi, Intake.session_of_empty htext]
  rfl

theorem check_of_text (hi : TakenIn h.tree r i) (htext : i.source.text ≠ "") :
    check launch h colour r =
      { result := .ok (Exit.ofResult (i.result launch h))
        output := showReport i.settings i.source colour (i.shown launch h) } := by
  rw [check_of_takenIn hi, Intake.session_of_text htext]
  rfl

/-! ## An obstacle decides -/

/-- When an obstacle decides, there is one conclusion whatever programs do. -/
theorem exists_conclusion_of_decides (colour : Bool) {o : Obstacle} (ho : o.Decides h.tree r) :
    ∃ c : Conclusion, (∀ launch, check launch h colour r = c) ∧ c.code? = o.code? ∧
      c.output = "" := by
  cases o with
  | source =>
    obtain ⟨m, hof⟩ := Intake.of_source ho
    refine ⟨⟨.ok .invalidInput, "", complaint colour m⟩, fun launch => ?_, rfl, rfl⟩
    unfold check
    rw [hof]
  | policy =>
    obtain ⟨m, hof⟩ := Intake.of_policy ho
    refine ⟨⟨.error m, "", ""⟩, fun launch => ?_, rfl, rfl⟩
    unfold check
    rw [hof]
  | command =>
    obtain ⟨m, hof⟩ := Intake.of_command ho
    refine ⟨⟨.error m, "", ""⟩, fun launch => ?_, rfl, rfl⟩
    unfold check
    rw [hof]
  | emptyText =>
    obtain ⟨i, hi⟩ := Intake.exists_takenIn (ho.2 .source (by decide)) (ho.2 .policy (by decide))
      (ho.2 .command (by decide))
    exact ⟨_, fun launch => check_of_empty hi (hi.emptyText_iff.mp ho.1), rfl, rfl⟩

theorem stopped_of_decides {o : Obstacle} (ho : o.Decides h.tree r) :
    Stopped launch h colour r o := by
  obtain ⟨c, hcheck, hexit, houtput⟩ := exists_conclusion_of_decides colour ho
  refine ⟨by rw [hcheck, hexit], by rw [hcheck, houtput], fun _ => by rw [hcheck, hcheck], ?_⟩
  intro i hof
  have hi : TakenIn h.tree r i := Intake.of_eq_ok_iff.mp hof
  obtain rfl := hi.eq_emptyText_of_present ho.1
  rw [Intake.session_of_empty (hi.emptyText_iff.mp ho.1)]

/-! ## The engine decides -/

/-- Of the programs only the one that is started matters, with its arguments and its input. -/
theorem Intake.answer_congr {launch' : Launcher}
    (hstart : ∀ path, Checker.resolve h i.command = .ok path →
      launch' h path i.command.tail (Text.bytesOf i.request.wire) =
        launch h path i.command.tail (Text.bytesOf i.request.wire)) :
    i.answer launch' h = i.answer launch h := by
  simp only [answer, Checker.analyze, Checker.program]
  cases hresolve : Checker.resolve h i.command with
  | error fault => rfl
  | ok path => simp only [Checker.runProgram, hstart path hresolve]

theorem Intake.result_eq_of_answer_eq {launch' : Launcher} {h' : Host} {i' : Intake}
    (hanswer : i'.answer launch' h' = i.answer launch h) :
    i'.result launch' h' = i.result launch h := by
  rw [result, result, hanswer]

/-- An analysis does not fail for want of input. -/
theorem Intake.ne_inputMissing {f : Failure} (hf : i.result launch h = .error f) :
    f ≠ .inputMissing := by
  have hturn : Advance.ofTurn .preparing (i.turn launch h i.request) = .ends (.error f) := by
    rw [advance_turn, hf]
  rintro rfl
  exact absurd (Advance.kind_of_ofTurn hturn) (by decide)

theorem Exit.ofResult_error {f : Failure} (hf : f ≠ .inputMissing) :
    Exit.ofResult (.error f) = .error := by
  cases f with
  | inputMissing => exact absurd rfl hf
  | _ => rfl

theorem Exit.ofResult_ok_violated {report : Report} (hne : report.groups.violations ≠ []) :
    Exit.ofResult (.ok report) = .violated := by
  rw [ofResult, Groups.hasViolations, List.isEmpty_eq_false_iff.mpr hne]
  rfl

theorem Exit.ofResult_ok_success {report : Report} (hnil : report.groups.violations = []) :
    Exit.ofResult (.ok report) = .success := by
  rw [ofResult, Groups.hasViolations, hnil]
  rfl

/-- The figures of a report are those of its violations. -/
theorem figures_of_ofOutput {output : String} {report : Report}
    (hreport : Report.ofOutput output = .ok report) :
    report.compliance = compliance report.groups.violations ∧
      report.frequency = frequency report.groups.violations := by
  obtain ⟨es, -, rfl⟩ := map_eq_ok_iff.mp hreport
  exact ⟨rfl, rfl⟩

theorem Intake.exists_output_of_result {report : Report}
    (hreport : i.result launch h = .ok report) :
    ∃ output, i.answer launch h = .ok output ∧ Report.ofOutput output = .ok report := by
  unfold result at hreport
  cases hanswer : i.answer launch h with
  | ok output =>
    rw [hanswer] at hreport
    exact ⟨output, rfl, hreport⟩
  | error fault =>
    rw [hanswer] at hreport
    cases hreport

theorem analyzed_of_takenIn (hi : TakenIn h.tree r i) (htext : i.source.text ≠ "") :
    Analyzed launch h colour r i := by
  have hexit : (check launch h colour r).code? = some (Exit.ofResult (i.result launch h)).code := by
    rw [check_of_text hi htext]
    rfl
  have hviolated : ∀ report, i.result launch h = .ok report → report.groups.violations ≠ [] →
      (check launch h colour r).code? = some 6 := by
    intro report hreport hne
    rw [hexit, hreport, Exit.ofResult_ok_violated hne]
    rfl
  have hsuccess : ∀ report, i.result launch h = .ok report → report.groups.violations = [] →
      (check launch h colour r).code? = some 0 := by
    intro report hreport hnil
    rw [hexit, hreport, Exit.ofResult_ok_success hnil]
    rfl
  refine ⟨hi, ?_, ?_, ?_, ?_, ?_, hviolated, hsuccess, ?_⟩
  · rw [Intake.session_of_text htext]
  · rw [Intake.session_of_text htext]
  · intro launch' hstart
    have hresult := Intake.result_eq_of_answer_eq (Intake.answer_congr hstart)
    rw [check_of_text hi htext, check_of_text hi htext, Intake.shown, Intake.shown, hresult]
  · rw [check_of_text hi htext]
  · intro f hf
    rw [hexit, hf, Exit.ofResult_error (Intake.ne_inputMissing hf)]
    rfl
  · intro report hreport
    obtain ⟨output, -, houtput⟩ := Intake.exists_output_of_result hreport
    obtain ⟨hcompliance, hfrequency⟩ := figures_of_ofOutput houtput
    rw [hcompliance, hfrequency, failedRules_pos_iff, percent_lt_iff, frequency_ne_nil_iff]
    refine ⟨⟨fun hviolations hnil => ?_, hviolated report hreport⟩, Iff.rfl, Iff.rfl⟩
    rw [hsuccess report hreport hnil] at hviolations
    cases hviolations

/-- An analysis takes place when no obstacle is there. -/
theorem exists_analyzed (launch : Launcher) (colour : Bool)
    (hnone : ∀ o : Obstacle, ¬ o.Present h.tree r) : ∃ i, Analyzed launch h colour r i := by
  obtain ⟨i, hi⟩ := Intake.exists_takenIn (hnone .source) (hnone .policy) (hnone .command)
  exact ⟨i, analyzed_of_takenIn hi fun htext => hnone .emptyText (hi.emptyText_iff.mpr htext)⟩

theorem Analyzed.code?_eq (hi : Analyzed launch h colour r i) :
    (check launch h colour r).code? = some (Exit.ofResult (i.result launch h)).code := by
  cases hresult : i.result launch h with
  | error f =>
    rw [hi.failed f hresult, Exit.ofResult_error (Intake.ne_inputMissing hresult)]
    rfl
  | ok report =>
    by_cases hnil : report.groups.violations = []
    · rw [hi.success report hresult hnil, Exit.ofResult_ok_success hnil]
      rfl
    · rw [hi.violated report hresult hnil, Exit.ofResult_ok_violated hnil]
      rfl

/-! ## What the exit depends on -/

/-- **The exit depends on the obstacles and the answer** of the engine. -/
theorem code?_eq_of_agree {launch' : Launcher} {h' : Host} {colour' : Bool} {r' : CheckRequest}
    (hpresent : ∀ o : Obstacle, o.Present h'.tree r' ↔ o.Present h.tree r)
    (hanswer : ∀ i i', TakenIn h.tree r i → TakenIn h'.tree r' i' →
      i'.answer launch' h' = i.answer launch h) :
    (check launch' h' colour' r').code? = (check launch h colour r).code? := by
  rcases Obstacle.exists_decides_or h.tree r with ⟨o, ho⟩ | hnone
  · have ho' : o.Decides h'.tree r' :=
      ⟨(hpresent o).mpr ho.1, fun o' hbefore => (hpresent o').not.mpr (ho.2 o' hbefore)⟩
    rw [(stopped_of_decides ho').code, (stopped_of_decides ho).code]
  · have hnone' : ∀ o : Obstacle, ¬ o.Present h'.tree r' := fun o => (hpresent o).not.mpr (hnone o)
    obtain ⟨i, hi⟩ := exists_analyzed launch colour hnone
    obtain ⟨i', hi'⟩ := exists_analyzed launch' colour' hnone'
    rw [hi.code?_eq, hi'.code?_eq,
      Intake.result_eq_of_answer_eq (hanswer i i' hi.takenIn hi'.takenIn)]

/-- The format that the arguments ask for changes the settings and nothing else. -/
theorem TakenIn.with_json (hi : TakenIn h.tree r i) (json : Bool) :
    TakenIn h.tree { r with json := json }
      { i with settings := Intake.settingsOf h.tree { r with json := json } } where
  settings := rfl
  name := hi.name
  text := hi.text
  noPolicy := hi.noPolicy
  policy := hi.policy
  command := hi.command

/-- How a report is shown does not matter for the exit. -/
theorem code?_with_json (json colour' : Bool) :
    (check launch h colour' { r with json := json }).code? = (check launch h colour r).code? := by
  refine code?_eq_of_agree (fun o => ?_) fun i i' hi hi' => ?_
  · cases o <;> exact Iff.rfl
  · rw [(hi.with_json json).eq hi']
    rfl

/-- Nor do the settings, as far as the engine answers the same. -/
theorem code?_of_settings {h' : Host} (hfile : h'.tree.read r.file = h.tree.read r.file)
    (hpolicy : ∀ path, r.policy = some path → h'.tree.readText path = h.tree.readText path)
    (hcommand : commandWords? h'.tree r = none ↔ commandWords? h.tree r = none)
    (hanswer : ∀ i i', TakenIn h.tree r i → TakenIn h'.tree r i' →
      i'.answer launch h' = i.answer launch h) :
    (check launch h' colour r).code? = (check launch h colour r).code? := by
  refine code?_eq_of_agree (fun o => ?_) hanswer
  cases o with
  | source => simp only [Obstacle.Present, hfile]
  | policy =>
    simp only [Obstacle.Present]
    refine exists_congr fun path => exists_congr fun fault => and_congr_right fun hpath => ?_
    rw [hpolicy path hpath]
  | command => exact hcommand
  | emptyText => simp only [Obstacle.Present, hfile]

end Cases

end PlcAudit
