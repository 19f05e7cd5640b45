import PlcAudit.Console.Report
import PlcAudit.Proofs.Report.Document

/-!
# Documents are read back

The JSON document of a snapshot leaves members out at two levels and spreads those of the snapshot
among its own.  Nothing is lost by that.  Here is a reader for such documents, one function for each
kind of data, and it gives back the name of the source and the snapshot.  An absent text is told
from an empty one because its member is not there.

A count of violations has 64 bits, as every number has that is read back.

* `Value.required`, `Value.optional`: a member that must be there, and one that may be missing.
* `Finding.ofValue?`, `Report.ofValue?`, `Snapshot.ofValue?`: the readers, each with the statement
  that it undoes the writer.
* `readable_document`: a document holds nothing that could not be read back.
* `Console.ofJson?`: the reader of whole texts.
* `Console.json_loses_nothing`: what is printed determines what was shown.
-/

namespace PlcAudit

open Json (Value)

/-! ## Reading values -/

namespace Json.Value

variable {α : Type}

/-- A natural number. -/
def asNat? : Value → Option Nat
  | .number (.int n) => if 0 ≤ n then some n.toNat else none
  | _ => none

/-- A number of 32 bits. -/
def asWord? (v : Value) : Option UInt32 := do
  let n ← v.asNat?
  if n < UInt32.size then some (.ofNat n) else none

/-- A list, each of whose items is read. -/
def asList? (read : Value → Option α) : Value → Option (List α)
  | .array vs => vs.mapM read
  | _ => none

/-- The value of a member that must be there. -/
def required (read : Value → Option α) (key : String) (v : Value) : Option α :=
  (v.member? key).bind read

/-- The value of a member that may be missing. -/
def optional (read : Value → Option α) (key : String) (v : Value) : Option (Option α) :=
  match v.member? key with
  | none => some none
  | some w => (read w).map some

/-- A reader undoes a writer. -/
def ReadsBack (read : Value → Option α) (write : α → Value) : Prop :=
  ∀ a, read (write a) = some a

theorem readsBack_nat : ReadsBack asNat? ofNat := fun n => by
  rw [ofNat, asNat?, if_pos (Int.natCast_nonneg n), Int.toNat_natCast]

theorem readsBack_word : ReadsBack asWord? wordValue := fun n => by
  rw [asWord?, wordValue, readsBack_nat]
  simp [n.toNat_lt]

theorem readsBack_string : ReadsBack asString? .string := fun _ => rfl

/-- A list is read back if its items are. -/
theorem ReadsBack.list {read : Value → Option α} {write : α → Value} (h : ReadsBack read write) :
    ReadsBack (asList? read) fun as => .array (as.map write) := by
  intro as
  rw [asList?]
  induction as with
  | nil => rfl
  | cons a as ih => rw [List.map_cons, List.mapM_cons, h, ih]; rfl

@[simp] theorem lookup?_cons (key : String) (m : String × Value) (ms : List (String × Value)) :
    lookup? key (m :: ms) = (lookup? key ms).or (if m.1 = key then some m.2 else none) := by
  rw [← List.singleton_append, lookup?_append]
  by_cases h : m.1 = key <;> simp [lookup?, h]

theorem ReadsBack.required {read : Value → Option α} {write : α → Value}
    (h : ReadsBack read write) {key : String} {ms : List (String × Value)} {a : α}
    (hv : lookup? key ms = some (write a)) : required read key (.object ms) = some a := by
  rw [Value.required, member?, hv]
  exact h a

theorem ReadsBack.optional {read : Value → Option α} {write : α → Value}
    (h : ReadsBack read write) {key : String} {ms : List (String × Value)} {a : Option α}
    (hv : lookup? key ms = a.map write) : optional read key (.object ms) = some a := by
  rw [Value.optional, member?, hv]
  cases a with
  | none => rfl
  | some a => exact congrArg (Option.map some) (h a)

end Json.Value

/-! ## The parts of a report -/

/-- A status by its spelling. -/
def Status.ofValue? (v : Value) : Option Status := do Status.ofSpelling? (← v.asString?)

/-- A finding from its members. -/
def Finding.ofValue? (v : Value) : Option Finding := do
  let status ← v.required Status.ofValue? "status"
  let ruleNo ← v.required Value.asWord? "rule_no"
  let ruleName ← v.required Value.asString? "rule_name"
  let line ← v.optional Value.asWord? "line"
  let reason ← v.optional Value.asString? "reason"
  let suggestion ← v.optional Value.asString? "suggestion"
  return { status, ruleNo, ruleName, line, reason, suggestion }

/-- Groups from their members. -/
def Groups.ofValue? (v : Value) : Option Groups := do
  let followed ← v.required (Value.asList? Finding.ofValue?) "followed"
  let violations ← v.required (Value.asList? Finding.ofValue?) "violations"
  let errors ← v.required (Value.asList? Finding.ofValue?) "errors"
  return { followed, violations, errors }

/-- Figures from their members. -/
def Compliance.ofValue? (v : Value) : Option Compliance := do
  let totalRules ← v.required Value.asWord? "total_rules"
  let failedRules ← v.required Value.asWord? "failed_rule_count"
  let passedRules ← v.required Value.asWord? "passed_rule_count"
  let percent ← v.required Value.asWord? "percent"
  return { totalRules, failedRules, passedRules, percent }

/-- A tally from its members. -/
def Tally.ofValue? (v : Value) : Option Tally := do
  let ruleNo ← v.required Value.asWord? "rule_no"
  let count ← v.required Value.asNat? "count"
  return { ruleNo, count }

/-- A report from its members. -/
def Report.ofValue? (v : Value) : Option Report := do
  let groups ← v.required Groups.ofValue? "results"
  let compliance ← v.required Compliance.ofValue? "summary"
  let frequency ← v.required (Value.asList? Tally.ofValue?) "frequency"
  return { groups, compliance, frequency }

/-- The phase with a key. -/
def Phase.ofValue? (v : Value) : Option Phase := do
  let key ← v.asString?
  [idle, loading, success, failure].find? (·.key = key)

/-- The kind of failure with a key. -/
def FailureKind.ofValue? (v : Value) : Option FailureKind := do
  let key ← v.asString?
  [inputMissing, engineUnavailable, engineThrew, malformedOutput, busy, abandoned].find?
    (·.key = key)

/-- A notice from its members. -/
def Notice.ofValue? (v : Value) : Option Notice := do
  let kind ← v.required FailureKind.ofValue? "kind"
  let message ← v.required Value.asString? "message"
  return { kind, message }

/-- A snapshot from its members, among which there may be others. -/
def Snapshot.ofValue? (v : Value) : Option Snapshot := do
  let phase ← v.required Phase.ofValue? "phase"
  let report ← v.optional Report.ofValue? "report"
  let notice ← v.optional Notice.ofValue? "failure"
  return { phase, report, notice }

/-! ## The readers undo the writers -/

theorem Status.readsBack : Value.ReadsBack ofValue? fun s => .string s.spelling :=
  ofSpelling?_spelling

theorem Finding.readsBack : Value.ReadsBack ofValue? toValue := by
  intro f
  have hstatus : f.toValue.required Status.ofValue? "status" = some f.status :=
    Status.readsBack.required (by simp [Value.lookup?_append, lookup?_optionalMember])
  have hruleNo : f.toValue.required Value.asWord? "rule_no" = some f.ruleNo :=
    Value.readsBack_word.required (by simp [Value.lookup?_append, lookup?_optionalMember])
  have hruleName : f.toValue.required Value.asString? "rule_name" = some f.ruleName :=
    Value.readsBack_string.required (by simp [Value.lookup?_append, lookup?_optionalMember])
  have hline : f.toValue.optional Value.asWord? "line" = some f.line :=
    Value.readsBack_word.optional (by simp [Value.lookup?_append, lookup?_optionalMember])
  have hreason : f.toValue.optional Value.asString? "reason" = some f.reason :=
    Value.readsBack_string.optional (by simp [Value.lookup?_append, lookup?_optionalMember])
  have hsuggestion : f.toValue.optional Value.asString? "suggestion" = some f.suggestion :=
    Value.readsBack_string.optional (by simp [Value.lookup?_append, lookup?_optionalMember])
  rw [ofValue?, hstatus, hruleNo, hruleName, hline, hreason, hsuggestion]
  rfl

theorem Finding.readsBack_list : Value.ReadsBack (Value.asList? ofValue?) listValue :=
  Finding.readsBack.list

theorem Groups.readsBack : Value.ReadsBack ofValue? toValue := by
  intro g
  have hfollowed : g.toValue.required (Value.asList? Finding.ofValue?) "followed" =
      some g.followed := Finding.readsBack_list.required (by simp)
  have hviolations : g.toValue.required (Value.asList? Finding.ofValue?) "violations" =
      some g.violations := Finding.readsBack_list.required (by simp)
  have herrors : g.toValue.required (Value.asList? Finding.ofValue?) "errors" =
      some g.errors := Finding.readsBack_list.required (by simp)
  rw [ofValue?, hfollowed, hviolations, herrors]
  rfl

theorem Compliance.readsBack : Value.ReadsBack ofValue? toValue := by
  intro c
  have hword : ∀ {key : String} {n : UInt32}, Value.member? key c.toValue = some (wordValue n) →
      c.toValue.required Value.asWord? key = some n := fun h => Value.readsBack_word.required h
  rw [ofValue?, hword (n := c.totalRules) rfl, hword (n := c.failedRules) rfl,
    hword (n := c.passedRules) rfl, hword (n := c.percent) rfl]
  rfl

theorem Tally.readsBack : Value.ReadsBack ofValue? toValue := by
  intro t
  have hruleNo : t.toValue.required Value.asWord? "rule_no" = some t.ruleNo :=
    Value.readsBack_word.required (by simp)
  have hcount : t.toValue.required Value.asNat? "count" = some t.count :=
    Value.readsBack_nat.required (by simp)
  rw [ofValue?, hruleNo, hcount]
  rfl

theorem Report.readsBack : Value.ReadsBack ofValue? toValue := by
  intro r
  have hgroups : r.toValue.required Groups.ofValue? "results" = some r.groups :=
    Groups.readsBack.required (by simp)
  have hcompliance : r.toValue.required Compliance.ofValue? "summary" = some r.compliance :=
    Compliance.readsBack.required (by simp)
  have hfrequency : r.toValue.required (Value.asList? Tally.ofValue?) "frequency" =
      some r.frequency := Tally.readsBack.list.required (by simp [frequencyValue])
  rw [ofValue?, hgroups, hcompliance, hfrequency]
  rfl

theorem Phase.readsBack : Value.ReadsBack ofValue? fun p => .string p.key := by
  intro p
  cases p <;> rfl

theorem FailureKind.readsBack : Value.ReadsBack ofValue? fun k => .string k.key := by
  intro k
  cases k <;> rfl

/-- The JSON of a notice. -/
def Notice.toValue (n : Notice) : Value :=
  .object [("kind", .string n.kind.key), ("message", .string n.message)]

theorem Notice.readsBack : Value.ReadsBack ofValue? toValue := by
  intro n
  have hkind : n.toValue.required FailureKind.ofValue? "kind" = some n.kind :=
    FailureKind.readsBack.required (by simp)
  have hmessage : n.toValue.required Value.asString? "message" = some n.message :=
    Value.readsBack_string.required (by simp)
  rw [ofValue?, hkind, hmessage]
  rfl

namespace Console

/-- The name of the source and the snapshot of a document. -/
def ofDocument? (v : Value) : Option (Option String × Snapshot) := do
  let name ← v.optional Value.asString? "file"
  let snapshot ← Snapshot.ofValue? v
  return (name, snapshot)

/-- The name of the source and the snapshot of a text. -/
def ofJson? (text : String) : Option (Option String × Snapshot) :=
  match Json.read text.toList with
  | .ok v => ofDocument? v
  | .error _ => none

variable (s : Snapshot) (source : Option Source)

/-- The members of a document. -/
theorem document_eq : document s source = .object
    (optionalMember "file" .string (source.map (·.name)) ++
      ([("phase", .string s.phase.key)] ++ optionalMember "report" Report.toValue s.report ++
        optionalMember "failure" Notice.toValue s.notice)) := by
  cases source <;> rfl

/-- **A document is read back:** the members of the snapshot are found beside the name of the
source. -/
theorem ofDocument?_document : ofDocument? (document s source) = some (source.map (·.name), s) := by
  have hname : (document s source).optional Value.asString? "file" =
      some (source.map (·.name)) := by
    rw [document_eq]
    exact Value.readsBack_string.optional
      (by simp [Value.lookup?_append, lookup?_optionalMember])
  have hphase : (document s source).required Phase.ofValue? "phase" = some s.phase := by
    rw [document_eq]
    exact Phase.readsBack.required (by simp [Value.lookup?_append, lookup?_optionalMember])
  have hreport : (document s source).optional Report.ofValue? "report" = some s.report := by
    rw [document_eq]
    exact Report.readsBack.optional (by simp [Value.lookup?_append, lookup?_optionalMember])
  have hnotice : (document s source).optional Notice.ofValue? "failure" = some s.notice := by
    rw [document_eq]
    exact Notice.readsBack.optional (by simp [Value.lookup?_append, lookup?_optionalMember])
  rw [ofDocument?, hname, Snapshot.ofValue?, hphase, hreport, hnotice]
  rfl

end Console

/-! ## Documents are readable -/

/-- The counts of a report have 64 bits. -/
def Report.CountsFit (r : Report) : Prop := ∀ t ∈ r.frequency, t.count < UInt64.size

/-- The counts of what is shown have 64 bits. -/
def Snapshot.CountsFit (s : Snapshot) : Prop := ∀ r, s.report = some r → r.CountsFit

theorem Compliance.readable_toValue (depth : Nat) (c : Compliance) :
    c.toValue.Readable (depth + 1) := by
  refine .object ?_
  simp only [List.forall_mem_cons]
  exact ⟨readable_wordValue _ _, readable_wordValue _ _, readable_wordValue _ _,
    readable_wordValue _ _, fun _ hm => nomatch hm⟩

theorem Tally.readable_toValue (depth : Nat) {t : Tally} (h : t.count < UInt64.size) :
    t.toValue.Readable (depth + 1) := by
  refine .object ?_
  simp only [List.forall_mem_cons]
  refine ⟨readable_wordValue _ _, .int ⟨?_, ?_⟩, fun _ hm => nomatch hm⟩
  · exact Int.le_trans (by decide) (Int.natCast_nonneg _)
  · exact Int.ofNat_lt.mpr h

theorem Groups.readable_toValue (depth : Nat) (g : Groups) : g.toValue.Readable (depth + 3) := by
  refine .object ?_
  simp only [List.forall_mem_cons]
  exact ⟨Finding.readable_listValue depth _, Finding.readable_listValue depth _,
    Finding.readable_listValue depth _, fun _ hm => nomatch hm⟩

theorem Report.readable_toValue (depth : Nat) {r : Report} (h : r.CountsFit) :
    r.toValue.Readable (depth + 4) := by
  refine .object ?_
  simp only [List.forall_mem_cons]
  refine ⟨r.groups.readable_toValue depth, r.compliance.readable_toValue _, .array ?_,
    fun _ hm => nomatch hm⟩
  intro v hv
  obtain ⟨t, ht, rfl⟩ := List.mem_map.mp hv
  exact Tally.readable_toValue _ (h t ht)

namespace Console

variable {s : Snapshot}

/-- **A document holds nothing that could not be read back.** -/
theorem readable_document (depth : Nat) (h : s.CountsFit) (source : Option Source) :
    (document s source).Readable (depth + 5) := by
  rw [document_eq]
  refine .object ?_
  simp only [List.forall_mem_append, List.forall_mem_singleton]
  refine ⟨forall_mem_optionalMember .string, ⟨.string _, ?_⟩, ?_⟩
  · cases hr : s.report with
    | none => exact fun m hm => nomatch hm
    | some r => exact List.forall_mem_singleton.mpr (Report.readable_toValue depth (h r hr))
  · refine forall_mem_optionalMember fun n => .object ?_
    simp only [List.forall_mem_cons]
    exact ⟨.string _, .string _, fun _ hm => nomatch hm⟩

theorem read_renderJson (h : s.CountsFit) (source : Option Source) :
    Json.read (renderJson s source).toList = .ok (document s source) := by
  have hspells : Json.Spells Json.maxDepth (Json.writeIndented 0 (document s source))
      (document s source) := Json.spells_writeIndented (readable_document 122 h source) 0
  rw [renderJson, String.toList_append, Json.indented, String.toList_ofList]
  exact Json.read_of_spells hspells (Json.isSpaces_newline 0)

/-- **A printed snapshot is read back,** with the name of its source. -/
theorem ofJson?_renderJson (h : s.CountsFit) (source : Option Source) :
    ofJson? (renderJson s source) = some (source.map (·.name), s) := by
  rw [ofJson?, read_renderJson h source]
  exact ofDocument?_document s source

/-- Of a source nothing but the name is printed. -/
theorem renderJson_congr (s : Snapshot) {source source' : Option Source}
    (h : source.map (·.name) = source'.map (·.name)) :
    renderJson s source = renderJson s source' := by
  rw [renderJson, renderJson, document_eq, document_eq, h]

/-- **The JSON report loses nothing.**  What is printed of a snapshot is a JSON text; the name of
the source and the whole snapshot are read back from it, an absent text as an absent one; and so the
texts of two snapshots are equal only if both the snapshots and the names are. -/
theorem json_loses_nothing (h : s.CountsFit) (source : Option Source) :
    Json.read (renderJson s source).toList = .ok (document s source) ∧
      ofJson? (renderJson s source) = some (source.map (·.name), s) ∧
      ∀ s' : Snapshot, s'.CountsFit → ∀ source' : Option Source,
        (renderJson s source = renderJson s' source' ↔
          source.map (·.name) = source'.map (·.name) ∧ s = s') := by
  refine ⟨read_renderJson h source, ofJson?_renderJson h source, fun s' h' source' => ?_⟩
  constructor
  · intro htext
    have hread := ofJson?_renderJson h source
    rw [htext, ofJson?_renderJson h' source', Option.some.injEq, Prod.mk.injEq] at hread
    exact ⟨hread.1.symm, hread.2.symm⟩
  · rintro ⟨hname, rfl⟩
    exact renderJson_congr s hname

/-- A failure after a report, with the greatest count, a violation at line zero and a text that may
be missing. -/
def afterReport (reason : Option String) : Snapshot where
  phase := .failure
  report := some
    { groups :=
        { violations := [{ status := .notFollowed, ruleNo := 4294967295, ruleName := "\"é\\\n",
                           line := some 0, reason }] }
      compliance := { totalRules := 20, failedRules := 1, passedRules := 19, percent := 95 }
      frequency := [⟨4294967295, 18446744073709551615⟩] }
  notice := some ⟨.abandoned, ""⟩

/-- An empty reason is read back as one, and is not printed like a missing one. -/
theorem empty_reason_is_kept :
    (afterReport (some "")).CountsFit ∧
      ofJson? (renderJson (afterReport (some "")) none) = some (none, afterReport (some "")) ∧
      renderJson (afterReport (some "")) none ≠ renderJson (afterReport none) none := by
  have hfit : ∀ reason, (afterReport reason).CountsFit := by
    rintro reason r ⟨⟩ t ht
    obtain rfl := List.mem_singleton.mp ht
    decide
  obtain ⟨-, hread, htexts⟩ := json_loses_nothing (hfit (some "")) none
  refine ⟨hfit _, hread, fun h => ?_⟩
  have hreason := ((htexts _ (hfit none) none).mp h).2
  exact absurd hreason (by decide)

end Console

end PlcAudit
