import PlcAudit.Proofs.Entry.Strictness

/-!
# Fields that are written twice

An entry that is an object may write line, reason and suggestion twice, beside the rule and in its
detail block.  A detail block that is an object hides what the entry has under the same keys, `null`
included, as if its members stood behind those of the entry: of a repeated key the last member
counts.  Status, number and name of the rule are not looked for in it, whatever it holds under their
keys.

The decoder takes a detail block that is the array of its fields as well.  An array has no keys, and
should hide nothing; its elements hide the members of the entry all the same, each by its position.

* `spread`: the members of an entry with those of its detail block behind them.
* `chosen?`: the value that the decoder takes for a field, with the positions of an array.
* `Finding.TakenFrom`: a finding whose fields are those of an entry, except that three of them are
  looked up in a way of their own.
* `takenFrom_chosen`: every entry that is an object.
* `Finding.TakenFrom.unique`: no other finding is taken from the same members in the same way.
* `takenFrom_spread_iff`: the entries whose detail block is spread.
* `object_entries_spread`: the statement about outputs.
* `positional_detail_hides_line`: an output whose finding is not the spread of its entry.
-/

namespace PlcAudit

open Json (Value)

/-! ## Where a field is looked up -/

/-- The members of the detail block, if it is an object. -/
def detailMembers (ms : List (String × Value)) : List (String × Value) :=
  match Value.lookup? "violation" ms with
  | some (.object ns) => ns
  | _ => []

/-- **The spread of an entry.**  The members of its detail block stand behind its own, and hide
those that have the same key. -/
def spread (ms : List (String × Value)) : List (String × Value) := ms ++ detailMembers ms

/-- The fields of a detail block, in the order in which an array gives them. -/
def detailKeys : List String := ["line", "reason", "suggestion"]

/-- What a detail block writes for a field: the member with its key, or the element at its
position. -/
def detailValue? (key : String) : Value → Option Value
  | .object ns => Value.lookup? key ns
  | .array ws => ws[detailKeys.idxOf key]?
  | _ => none

/-- The value that counts for a field: what the detail block writes, and else what the entry has. -/
def chosen? (ms : List (String × Value)) (key : String) : Option Value :=
  ((Value.lookup? "violation" ms).bind (detailValue? key)).or (Value.lookup? key ms)

/-- What counts is the spread, unless the detail block is an array. -/
theorem lookup?_spread {ms : List (String × Value)}
    (h : ∀ ws, Value.lookup? "violation" ms ≠ some (.array ws)) (key : String) :
    Value.lookup? key (spread ms) = chosen? ms key := by
  rw [spread, Value.lookup?_append, chosen?, detailMembers]
  cases hv : Value.lookup? "violation" ms with
  | none => rfl
  | some v =>
    cases v with
    | array ws => exact absurd hv (h ws)
    | _ => rfl

/-- An array spreads nothing. -/
theorem lookup?_spread_of_array {ms : List (String × Value)} {ws : List Value}
    (h : Value.lookup? "violation" ms = some (.array ws)) (key : String) :
    Value.lookup? key (spread ms) = Value.lookup? key ms := by
  rw [spread, Value.lookup?_append, detailMembers, h]
  rfl

/-! ## The detail block in either form -/

namespace Entry

theorem element_nullable_iff {α : Type} {read : Value → Except EntryFault α}
    (hnull : ∀ x, read .null ≠ .ok x) {ws : List Value} {i : Nat} {a : Option (Option α)} :
    element (nullable read) ws i = .ok a ↔ Written (Reads read) ws[i]? a := by
  rw [← nullable_iff_written hnull, element]
  cases ws[i]? with
  | none => simp [eq_comm]
  | some v =>
    rw [map_eq_ok_iff]
    simp [Reads, eq_comm]

/-- The fields of a detail block that is taken are what the block writes for them. -/
theorem written_of_detailOf {v : Value} {d : Detail} (h : detailOf v = .ok d) :
    Written IsWord (detailValue? "line" v) d.line ∧
      Written IsText (detailValue? "reason" v) d.reason ∧
      Written IsText (detailValue? "suggestion" v) d.suggestion := by
  cases v with
  | object ns =>
    obtain ⟨hline, hreason, hsuggestion⟩ := detailOf_object_eq_ok_iff.mp h
    exact ⟨hline, hreason, hsuggestion⟩
  | array ws =>
    simp only [detailOf, bind_eq_ok_iff, pure_eq_ok_iff, element_nullable_iff wordOf_null,
      element_nullable_iff textOf_null, reads_wordOf, reads_textOf] at h
    obtain ⟨line, hline, reason, hreason, suggestion, hsuggestion, _, -, rfl⟩ := h
    exact ⟨hline, hreason, hsuggestion⟩
  | _ => cases h

/-- What the detail block writes hides the flat value, `null` included. -/
theorem supplied_or {α : Type} {R : Value → α → Prop} {m n : Option Value} {flat : Option α}
    {nested : Option (Option α)} (hflat : Supplied R m flat) (hnested : Written R n nested) :
    Supplied R (n.or m) (nested.getD flat) := by
  cases hnested with
  | missing => exact hflat
  | null => exact .null
  | value h => exact .value h

end Entry

/-! ## Findings of entries that are objects -/

/-- A value that is taken for a status. -/
inductive TakenForStatus : Value → Status → Prop where
  | string {s : String} {st : Status} (h : Status.Spelled s st) : TakenForStatus (.string s) st
  /-- An object with the spelling for its only key. -/
  | tagged {ns : List (String × Value)} {key : String} {st : Status} (h : Status.Spelled key st)
      (hkeys : ∀ m ∈ ns, m.1 = key) (hnull : Value.lookup? key ns = some .null) :
      TakenForStatus (.object ns) st

theorem takenForStatus_of_statusOf {v : Value} {st : Status} (h : Entry.statusOf v = .ok st) :
    TakenForStatus v st := by
  cases v with
  | string s => exact .string (Entry.statusNamed_eq_ok_iff.mp h)
  | object ns =>
    obtain ⟨key, hkey, hkeys, hnull⟩ := Entry.spelled_of_statusOf h
    exact .tagged hkey hkeys hnull
  | _ => cases h

/-- **A finding that is taken from the members of an entry.**  Status, number and name of its rule
are those of the entry.  Line, reason and suggestion are where `pick` finds them; nothing there and
`null` both mean that there is none, and so does the number zero for the line. -/
structure Finding.TakenFrom (ms : List (String × Value)) (pick : String → Option Value)
    (f : Finding) : Prop where
  status : ∃ v, Value.lookup? "status" ms = some v ∧ TakenForStatus v f.status
  ruleNo : ∃ v, Value.lookup? "rule_no" ms = some v ∧ IsWord v f.ruleNo
  ruleName : ∃ v, Value.lookup? "rule_name" ms = some v ∧ IsText v f.ruleName
  line : ∃ l, Supplied IsWord (pick "line") l ∧ f.line = l.filter fun n => 0 < n
  reason : Supplied IsText (pick "reason") f.reason
  suggestion : Supplied IsText (pick "suggestion") f.suggestion

theorem Finding.bind_lineOf (l : Option UInt32) :
    l.bind Finding.lineOf = l.filter fun n => 0 < n := by
  cases l with
  | none => rfl
  | some n => simp [Finding.lineOf, Option.filter]

/-- **Every entry that is an object.**  Its finding has what the detail block writes for the three
fields, and else what the entry has. -/
theorem takenFrom_chosen {ms : List (String × Value)} {e : Entry} (h : Entry.ofMembers ms = .ok e) :
    e.toFinding.TakenFrom ms (chosen? ms) := by
  obtain ⟨⟨v, hv, hstatus⟩, hruleNo, hruleName, hline, hreason, hsuggestion, hdetail⟩ :=
    Entry.ofMembers_eq_ok_iff.mp h
  have hwritten : Written IsWord ((Value.lookup? "violation" ms).bind (detailValue? "line"))
        (e.detail.bind Detail.line) ∧
      Written IsText ((Value.lookup? "violation" ms).bind (detailValue? "reason"))
        (e.detail.bind Detail.reason) ∧
      Written IsText ((Value.lookup? "violation" ms).bind (detailValue? "suggestion"))
        (e.detail.bind Detail.suggestion) := by
    generalize Value.lookup? "violation" ms = m at hdetail
    generalize e.detail = d at hdetail
    cases hdetail with
    | missing => exact ⟨.missing, .missing, .missing⟩
    | null => exact ⟨.missing, .missing, .missing⟩
    | value hd => exact Entry.written_of_detailOf hd
  obtain ⟨hline', hreason', hsuggestion'⟩ := hwritten
  exact
    { status := ⟨v, hv, takenForStatus_of_statusOf hstatus⟩
      ruleNo := hruleNo
      ruleName := hruleName
      line := ⟨_, Entry.supplied_or hline hline', Finding.bind_lineOf _⟩
      reason := Entry.supplied_or hreason hreason'
      suggestion := Entry.supplied_or hsuggestion hsuggestion' }

/-- Without its detail block an entry gives a finding that has what the entry has. -/
theorem takenFrom_flat {ms : List (String × Value)} {e : Entry} (h : Entry.ofMembers ms = .ok e) :
    ({ e with detail := none } : Entry).toFinding.TakenFrom ms fun key => Value.lookup? key ms := by
  obtain ⟨⟨v, hv, hstatus⟩, hruleNo, hruleName, hline, hreason, hsuggestion, -⟩ :=
    Entry.ofMembers_eq_ok_iff.mp h
  exact
    { status := ⟨v, hv, takenForStatus_of_statusOf hstatus⟩
      ruleNo := hruleNo
      ruleName := hruleName
      line := ⟨e.line, hline, Finding.bind_lineOf _⟩
      reason := hreason
      suggestion := hsuggestion }

/-! ## One finding for each way of looking up -/

theorem IsWord.unique {v : Value} {m n : UInt32} (hm : IsWord v m) (hn : IsWord v n) : m = n := by
  have h : (m.toNat : Int) = n.toNat := by
    rw [IsWord, hm] at hn
    exact Json.Number.int.inj (Value.number.inj hn)
  exact UInt32.toNat_inj.mp (Int.ofNat.inj h)

theorem IsText.unique {v : Value} {s t : String} (hs : IsText v s) (ht : IsText v t) : s = t := by
  rw [IsText, hs] at ht
  exact Value.string.inj ht

theorem not_isWord_null (n : UInt32) : ¬ IsWord .null n := fun h => nomatch h

theorem not_isText_null (s : String) : ¬ IsText .null s := fun h => nomatch h

theorem Status.Spelled.unique {s : String} {st st' : Status} (h : Spelled s st)
    (h' : Spelled s st') : st = st' := by
  have hspelling := ofSpelling?_eq_some_iff.mpr h
  rw [ofSpelling?_eq_some_iff.mpr h'] at hspelling
  exact (Option.some.inj hspelling).symm

theorem TakenForStatus.unique {v : Value} {st st' : Status} (h : TakenForStatus v st)
    (h' : TakenForStatus v st') : st = st' := by
  cases h with
  | string hs =>
    cases h' with
    | string hs' => exact hs.unique hs'
  | @tagged ns key _ hs hkeys hnull =>
    cases h' with
    | @tagged _ key' _ hs' hkeys' _ =>
      -- the object has a member, and its key is either of the two
      obtain ⟨m, hm, -⟩ := Option.map_eq_some_iff.mp hnull
      have hmem : m ∈ ns := List.mem_reverse.mp (List.mem_of_find?_eq_some hm)
      have hkey : key = key' := (hkeys m hmem).symm.trans (hkeys' m hmem)
      subst hkey
      exact hs.unique hs'

/-- A member that may be missing or `null` has one value, if no value stands for `null`. -/
theorem Supplied.unique {α : Type} {R : Value → α → Prop} (hnull : ∀ a, ¬ R .null a)
    (hR : ∀ {v a b}, R v a → R v b → a = b) {m : Option Value} {a b : Option α}
    (ha : Supplied R m a) (hb : Supplied R m b) : a = b := by
  cases ha with
  | missing =>
    cases hb with
    | missing => rfl
  | null =>
    cases hb with
    | null => rfl
    | value hb => exact absurd hb (hnull _)
  | value ha =>
    cases hb with
    | null => exact absurd ha (hnull _)
    | value hb => rw [hR ha hb]

/-- **One finding is taken from the members of an entry,** however its fields are looked up. -/
theorem Finding.TakenFrom.unique {ms : List (String × Value)} {pick : String → Option Value}
    {f g : Finding} (hf : f.TakenFrom ms pick) (hg : g.TakenFrom ms pick) : f = g := by
  obtain ⟨⟨v, hv, hstatus⟩, ⟨w, hw, hno⟩, ⟨x, hx, hname⟩, ⟨l, hl, hline⟩, hreason,
    hsuggestion⟩ := hf
  obtain ⟨⟨v', hv', hstatus'⟩, ⟨w', hw', hno'⟩, ⟨x', hx', hname'⟩, ⟨l', hl', hline'⟩, hreason',
    hsuggestion'⟩ := hg
  obtain rfl : v = v' := Option.some.inj (hv.symm.trans hv')
  obtain rfl : w = w' := Option.some.inj (hw.symm.trans hw')
  obtain rfl : x = x' := Option.some.inj (hx.symm.trans hx')
  obtain rfl : l = l' := hl.unique not_isWord_null IsWord.unique hl'
  obtain ⟨status, ruleNo, ruleName, line, reason, suggestion⟩ := f
  obtain ⟨status', ruleNo', ruleName', line', reason', suggestion'⟩ := g
  rw [Finding.mk.injEq]
  exact ⟨hstatus.unique hstatus', hno.unique hno', hname.unique hname', hline.trans hline'.symm,
    hreason.unique not_isText_null IsText.unique hreason',
    hsuggestion.unique not_isText_null IsText.unique hsuggestion'⟩

/-! ## Entries whose detail block is spread -/

/-- **The detail block is spread,** unless it is an array that makes a difference. -/
theorem takenFrom_spread_iff {ms : List (String × Value)} {e : Entry}
    (h : Entry.ofMembers ms = .ok e) :
    (e.toFinding.TakenFrom ms fun key => Value.lookup? key (spread ms)) ↔
      ∀ ws, Value.lookup? "violation" ms = some (.array ws) →
        e.toFinding = ({ e with detail := none } : Entry).toFinding := by
  constructor
  · intro htaken ws hws
    simp only [lookup?_spread_of_array hws] at htaken
    exact htaken.unique (takenFrom_flat h)
  · intro hflat
    by_cases harray : ∃ ws, Value.lookup? "violation" ms = some (.array ws)
    · obtain ⟨ws, hws⟩ := harray
      simp only [lookup?_spread_of_array hws]
      rw [hflat ws hws]
      exact takenFrom_flat h
    · have hchosen : (fun key => Value.lookup? key (spread ms)) = chosen? ms :=
        funext (lookup?_spread fun ws hws => harray ⟨ws, hws⟩)
      rw [hchosen]
      exact takenFrom_chosen h

/-- **What becomes of the entries of an output.**  An output that is accepted is an array, and each
element that is an object gives the finding that is taken from its members: what the detail block
writes for line, reason and suggestion hides what the entry has, and status, number and name of the
rule are those of the entry.  This is the spread of the entry, exactly unless its detail block is an
array that makes a difference.  There is one finding for each entry, in their order. -/
theorem object_entries_spread {output : String} {es : List Entry}
    (h : parseOutput output = .ok es) :
    ∃ vs, Json.read output.toList = .ok (.array vs) ∧
      List.Forall₂ (fun v e => ∀ ms, v = .object ms →
        e.toFinding.TakenFrom ms (chosen? ms) ∧
          ((e.toFinding.TakenFrom ms fun key => Value.lookup? key (spread ms)) ↔
            ∀ ws, Value.lookup? "violation" ms = some (.array ws) →
              e.toFinding = ({ e with detail := none } : Entry).toFinding)) vs es ∧
      List.Forall₂ (fun e f => f = e.toFinding) es (findingsOf es) := by
  obtain ⟨vs, hread, hvs⟩ := parseOutput_eq_ok_iff.mp h
  refine ⟨vs, hread, hvs.imp ?_, ?_⟩
  · rintro v e he ms rfl
    exact ⟨takenFrom_chosen he, takenFrom_spread_iff he⟩
  · rw [findingsOf, List.forall₂_map_right_iff, List.forall₂_same]
    exact fun _ _ => rfl

/-- A detail block that clears the line by a zero and the reason by `null`, so that neither the line
nor the reason beside it is left. -/
theorem detail_block_clears_fields :
    ∃ e ms, parseOutput ("[\x7b\"status\":\"OK\",\"rule_no\":2,\"rule_name\":\"b\"," ++
        "\"line\":3,\"reason\":\"r\"," ++
        "\"violation\":\x7b\"line\":0,\"reason\":null\x7d\x7d]") = .ok [e] ∧
      Json.read ("[\x7b\"status\":\"OK\",\"rule_no\":2,\"rule_name\":\"b\"," ++
        "\"line\":3,\"reason\":\"r\"," ++
        "\"violation\":\x7b\"line\":0,\"reason\":null\x7d\x7d]").toList =
        .ok (.array [.object ms]) ∧
      e.toFinding = { status := .ok, ruleNo := 2, ruleName := "b" } ∧
      e.toFinding.TakenFrom ms fun key => Value.lookup? key (spread ms) := by
  have hparse : parseOutput
      ("[\x7b\"status\":\"OK\",\"rule_no\":2,\"rule_name\":\"b\"," ++
        "\"line\":3,\"reason\":\"r\"," ++
        "\"violation\":\x7b\"line\":0,\"reason\":null\x7d\x7d]") =
      .ok [{ status := .ok, ruleNo := 2, ruleName := "b", line := some 3, reason := some "r",
             detail := some { line := some (some 0), reason := some none } }] := by
    decide +kernel
  have hread : Json.read
      ("[\x7b\"status\":\"OK\",\"rule_no\":2,\"rule_name\":\"b\"," ++
        "\"line\":3,\"reason\":\"r\"," ++
        "\"violation\":\x7b\"line\":0,\"reason\":null\x7d\x7d]").toList =
      .ok (.array [.object [("status", .string "OK"), ("rule_no", .number (.int 2)),
        ("rule_name", .string "b"), ("line", .number (.int 3)), ("reason", .string "r"),
        ("violation", .object [("line", .number (.int 0)), ("reason", .null)])]]) := by
    refine Json.read_toList_of_eq_write (by decide +kernel)
      (.array (List.forall_mem_singleton.mpr (.object ?_)))
    simp only [List.forall_mem_cons]
    have hdetail : (Value.object [("line", .number (.int 0)), ("reason", .null)]).Readable 125 :=
      .object (List.forall_mem_cons.mpr ⟨.int (by decide), List.forall_mem_singleton.mpr .null⟩)
    exact ⟨.string _, .int (by decide), .string _, .int (by decide), .string _, hdetail, nofun⟩
  obtain ⟨vs, hread', hvs, -⟩ := object_entries_spread hparse
  obtain rfl := Value.array.inj (Except.ok.inj (hread.symm.trans hread'))
  obtain ⟨hentry, -⟩ := List.forall₂_cons.mp hvs
  refine ⟨_, _, hparse, hread, by decide, (hentry _ rfl).2.mpr ?_⟩
  intro ws hws
  cases hws

/-- **A detail block that is not spread.**  It is an array, so it has no line to hide that of the
entry, and its first element hides it all the same. -/
theorem positional_detail_hides_line :
    ∃ e ms, parseOutput ("[\x7b\"status\":\"OK\",\"rule_no\":1,\"rule_name\":\"n\"," ++
        "\"line\":3,\"violation\":[5]\x7d]") = .ok [e] ∧
      Json.read ("[\x7b\"status\":\"OK\",\"rule_no\":1,\"rule_name\":\"n\"," ++
        "\"line\":3,\"violation\":[5]\x7d]").toList = .ok (.array [.object ms]) ∧
      e.toFinding.line = some 5 ∧ Value.lookup? "line" (spread ms) = some (.number (.int 3)) ∧
      ¬ e.toFinding.TakenFrom ms fun key => Value.lookup? key (spread ms) := by
  have hread : Json.read ("[\x7b\"status\":\"OK\",\"rule_no\":1,\"rule_name\":\"n\"," ++
      "\"line\":3,\"violation\":[5]\x7d]").toList =
      .ok (.array [.object [("status", .string "OK"), ("rule_no", .number (.int 1)),
        ("rule_name", .string "n"), ("line", .number (.int 3)),
        ("violation", .array [.number (.int 5)])]]) := by
    refine Json.read_toList_of_eq_write (by decide +kernel)
      (.array (List.forall_mem_singleton.mpr (.object ?_)))
    simp only [List.forall_mem_cons]
    have hdetail : (Value.array [.number (.int 5)]).Readable 125 :=
      .array (List.forall_mem_singleton.mpr (.int (by decide)))
    exact ⟨.string _, .int (by decide), .string _, .int (by decide), hdetail, nofun⟩
  refine ⟨{ status := .ok, ruleNo := 1, ruleName := "n", line := some 3,
            detail := some { line := some (some 5) } }, _, by decide +kernel, hread, rfl, rfl, ?_⟩
  intro htaken
  obtain ⟨l, hl, hline⟩ := htaken.line
  have hthree : Supplied IsWord (some (.number (.int 3))) (some 3) := .value rfl
  obtain rfl : l = some 3 := Supplied.unique not_isWord_null IsWord.unique hl hthree
  revert hline
  decide

end PlcAudit
