import Mathlib.Data.List.Forall2
import PlcAudit.Entry.Output

/-!
# How an entry is spelled

The decoder of entries runs through the keys of an object and stops at the first value that does not
fit.  Here the values that fit are described without running anything: a relation for each kind of
field between the value and what it stands for, and one for the entry as a whole.

* `IsWord`, `IsText`, `IsStatus`, `IsDetail`: the values that stand for a field.
* `Supplied`, `Written`: a member that may be missing or `null`, without and with the difference
  between the two.
* `Entry.SpelledBy`, `IsEntry`: the entry that an object stands for.
* `IsPlain`: the objects for which the decoder has no other form than that.
* `ofMembers_eq_ok_iff`: the decoder in terms of its parts, each of which has such a lemma.
* `ofValue_eq_ok_iff`: a plain element is taken exactly when it spells an entry.
-/

namespace PlcAudit

open Json (Value)

/-! ## Values of single fields -/

/-- A whole number below `2 ^ 32`. -/
def IsWord (v : Value) (n : UInt32) : Prop := v = .number (.int n.toNat)

/-- A string. -/
def IsText (v : Value) (s : String) : Prop := v = .string s

/-- The four spellings of the three statuses. -/
inductive Status.Spelled : String → Status → Prop where
  | ok : Spelled "OK" .ok
  | notFollowed : Spelled "NOT_FOLLOWED" .notFollowed
  | older : Spelled "NOT FOLLOWED" .notFollowed
  | error : Spelled "ERROR" .error

/-- A string that spells a status. -/
def IsStatus (v : Value) (st : Status) : Prop := ∃ s, v = .string s ∧ Status.Spelled s st

/-- A member that may be missing or `null`, which means the same. -/
inductive Supplied {α : Type} (R : Value → α → Prop) : Option Value → Option α → Prop where
  | missing : Supplied R none none
  | null : Supplied R (some .null) none
  | value {v : Value} {a : α} (h : R v a) : Supplied R (some v) (some a)

/-- Two relations that agree on the member give the same values. -/
theorem Supplied.congr {α : Type} {R S : Value → α → Prop} {m : Option Value} {a : Option α}
    (h : ∀ v, m = some v → ∀ a, R v a ↔ S v a) : Supplied R m a ↔ Supplied S m a := by
  constructor
  · intro hg
    cases hg with
    | missing => exact .missing
    | null => exact .null
    | value hv => exact .value ((h _ rfl _).mp hv)
  · intro hg
    cases hg with
    | missing => exact .missing
    | null => exact .null
    | value hv => exact .value ((h _ rfl _).mpr hv)

/-- A member that may be missing or `null`, with the difference kept. -/
inductive Written {α : Type} (R : Value → α → Prop) : Option Value → Option (Option α) → Prop where
  | missing : Written R none none
  | null : Written R (some .null) (some none)
  | value {v : Value} {a : α} (h : R v a) : Written R (some v) (some (some a))

/-! ## Details and entries -/

/-- The detail block that the members of an object stand for.  Of a repeated key the last member
counts, and keys that are not named here may have any value. -/
structure Detail.SpelledBy (ms : List (String × Value)) (d : Detail) : Prop where
  line : Written IsWord (Value.lookup? "line" ms) d.line
  reason : Written IsText (Value.lookup? "reason" ms) d.reason
  suggestion : Written IsText (Value.lookup? "suggestion" ms) d.suggestion

/-- An object that stands for a detail block. -/
def IsDetail (v : Value) (d : Detail) : Prop := ∃ ms, v = .object ms ∧ d.SpelledBy ms

/-- **The entry that the members of an object stand for.**  Status, number and name of the rule
have to be there; the other fields may be missing or `null`.  Of a repeated key the last member
counts, and keys that are not named here may have any value. -/
structure Entry.SpelledBy (ms : List (String × Value)) (e : Entry) : Prop where
  status : ∃ v, Value.lookup? "status" ms = some v ∧ IsStatus v e.status
  ruleNo : ∃ v, Value.lookup? "rule_no" ms = some v ∧ IsWord v e.ruleNo
  ruleName : ∃ v, Value.lookup? "rule_name" ms = some v ∧ IsText v e.ruleName
  line : Supplied IsWord (Value.lookup? "line" ms) e.line
  reason : Supplied IsText (Value.lookup? "reason" ms) e.reason
  suggestion : Supplied IsText (Value.lookup? "suggestion" ms) e.suggestion
  detail : Supplied IsDetail (Value.lookup? "violation" ms) e.detail

/-- An object that stands for an entry. -/
def IsEntry (v : Value) (e : Entry) : Prop := ∃ ms, v = .object ms ∧ e.SpelledBy ms

/-- An object whose status is no object, and whose detail block is no array. -/
def IsPlain (v : Value) : Prop :=
  ∃ ms, v = .object ms ∧ (∀ ns, Value.lookup? "status" ms ≠ some (.object ns)) ∧
    ∀ ws, Value.lookup? "violation" ms ≠ some (.array ws)

/-- What spells an entry is plain. -/
theorem IsEntry.isPlain {v : Value} {e : Entry} (h : IsEntry v e) : IsPlain v := by
  obtain ⟨ms, rfl, hms⟩ := h
  refine ⟨ms, rfl, ?_, ?_⟩
  · intro ns hns
    obtain ⟨v, hv, s, rfl, -⟩ := hms.status
    rw [hns] at hv
    cases hv
  · intro ws hws
    have hdetail := hms.detail
    rw [hws] at hdetail
    generalize e.detail = d at hdetail
    cases hdetail with
    | value h =>
      obtain ⟨ns, hns, -⟩ := h
      cases hns

/-! ## Decoders in `Except` -/

/-- What a decoder makes of a value. -/
def Reads {ε α : Type} (read : Value → Except ε α) (v : Value) (a : α) : Prop := read v = .ok a

theorem bind_eq_ok_iff {ε α β : Type} {x : Except ε α} {f : α → Except ε β} {b : β} :
    x >>= f = .ok b ↔ ∃ a, x = .ok a ∧ f a = .ok b := by
  constructor
  · intro h
    cases x with
    | error e => cases h
    | ok a => exact ⟨a, rfl, h⟩
  · rintro ⟨a, rfl, h⟩
    exact h

theorem map_eq_ok_iff {ε α β : Type} {x : Except ε α} {f : α → β} {b : β} :
    x.map f = .ok b ↔ ∃ a, x = .ok a ∧ f a = b := by
  constructor
  · intro h
    cases x with
    | error e => cases h
    | ok a => exact ⟨a, rfl, Except.ok.inj h⟩
  · rintro ⟨a, rfl, rfl⟩
    rfl

theorem pure_eq_ok_iff {ε α : Type} {a b : α} : (pure a : Except ε α) = .ok b ↔ a = b :=
  ⟨Except.ok.inj, congrArg Except.ok⟩

namespace Entry

/-! ## Decoders of single fields -/

theorem wordOf_eq_ok_iff {v : Value} {n : UInt32} : wordOf v = .ok n ↔ IsWord v n := by
  unfold IsWord
  constructor
  · intro h
    unfold wordOf at h
    split at h
    · next k =>
      split at h
      · next hk =>
        have hn : n = UInt32.ofNat k.toNat := (Except.ok.inj h).symm
        have hlt : k.toNat < UInt32.size := by omega
        rw [hn, UInt32.toNat_ofNat_of_lt' hlt, Int.toNat_of_nonneg hk.1]
      · cases h
    · cases h
  · rintro rfl
    have hlt := n.toNat_lt
    simp only [wordOf, Int.toNat_natCast, UInt32.ofNat_toNat]
    rw [if_pos (by simp only [UInt32.size]; omega)]

theorem textOf_eq_ok_iff {v : Value} {s : String} : textOf v = .ok s ↔ IsText v s := by
  unfold IsText
  constructor
  · intro h
    unfold textOf at h
    split at h
    · rw [Except.ok.inj h]
    · cases h
  · rintro rfl
    rfl

theorem reads_wordOf : Reads wordOf = IsWord := by
  funext v n
  exact propext wordOf_eq_ok_iff

theorem reads_textOf : Reads textOf = IsText := by
  funext v s
  exact propext textOf_eq_ok_iff

end Entry

theorem Status.ofSpelling?_eq_some_iff {s : String} {st : Status} :
    ofSpelling? s = some st ↔ Spelled s st := by
  constructor
  · intro h
    unfold ofSpelling? at h
    split at h
    · next hs =>
      cases hs
      cases h
      exact .ok
    · split at h
      · next hs =>
        cases h
        rcases hs with rfl | rfl
        · exact .notFollowed
        · exact .older
      · split at h
        · next hs =>
          cases hs
          cases h
          exact .error
        · cases h
  · intro h
    cases h <;> rfl

namespace Entry

theorem statusNamed_eq_ok_iff {s : String} {st : Status} :
    statusNamed s = .ok st ↔ Status.Spelled s st := by
  rw [← Status.ofSpelling?_eq_some_iff]
  unfold statusNamed
  cases Status.ofSpelling? s <;> simp

/-- A status that is not written as an object is written as one of the spellings. -/
theorem statusOf_eq_ok_iff {v : Value} {st : Status} (hv : ∀ ns, v ≠ .object ns) :
    statusOf v = .ok st ↔ IsStatus v st := by
  constructor
  · intro h
    cases v with
    | string s => exact ⟨s, rfl, statusNamed_eq_ok_iff.mp h⟩
    | object ns => exact absurd rfl (hv ns)
    | _ => cases h
  · rintro ⟨s, rfl, hs⟩
    exact statusNamed_eq_ok_iff.mpr hs

/-! ## Decoders of members -/

section Members

variable {α : Type} {read : Value → Except EntryFault α} {key : String}
  {ms : List (String × Value)}

theorem field_eq_ok_iff {a : Option α} : field read key ms = .ok a ↔
    (Value.lookup? key ms = none ∧ a = none) ∨
      ∃ v x, Value.lookup? key ms = some v ∧ Reads read v x ∧ a = some x := by
  unfold field
  cases Value.lookup? key ms with
  | none => simp [eq_comm]
  | some v =>
    rw [map_eq_ok_iff]
    simp [Reads, eq_comm]

/-- A member that must be there. -/
theorem required_field_iff {a : α} :
    (∃ b, field read key ms = .ok b ∧ required key b = .ok a) ↔
      ∃ v, Value.lookup? key ms = some v ∧ Reads read v a := by
  constructor
  · rintro ⟨b, hb, ha⟩
    rcases field_eq_ok_iff.mp hb with ⟨-, rfl⟩ | ⟨v, x, hv, hx, rfl⟩
    · cases ha
    · cases ha
      exact ⟨v, hv, hx⟩
  · rintro ⟨v, hv, ha⟩
    exact ⟨some a, field_eq_ok_iff.mpr (Or.inr ⟨v, a, hv, ha, rfl⟩), rfl⟩

/-- A value that may be missing or `null`, for a decoder that does not take `null` itself. -/
theorem nullable_iff_written (hnull : ∀ x, read .null ≠ .ok x) {m : Option Value}
    {a : Option (Option α)} :
    ((m = none ∧ a = none) ∨ ∃ v x, m = some v ∧ Reads (nullable read) v x ∧ a = some x) ↔
      Written (Reads read) m a := by
  constructor
  · rintro (⟨rfl, rfl⟩ | ⟨v, x, rfl, hx, rfl⟩)
    · exact .missing
    · cases v with
      | null =>
        cases hx
        exact .null
      | _ =>
        obtain ⟨y, hy, rfl⟩ := map_eq_ok_iff.mp hx
        exact .value hy
  · intro h
    cases h with
    | missing => exact Or.inl ⟨rfl, rfl⟩
    | null => exact Or.inr ⟨.null, none, rfl, rfl, rfl⟩
    | @value v x hx =>
      refine Or.inr ⟨v, some x, rfl, ?_, rfl⟩
      cases v with
      | null => exact absurd hx (hnull x)
      | _ => exact map_eq_ok_iff.mpr ⟨x, hx, rfl⟩

theorem field_nullable_iff (hnull : ∀ x, read .null ≠ .ok x) {a : Option (Option α)} :
    field (nullable read) key ms = .ok a ↔ Written (Reads read) (Value.lookup? key ms) a :=
  field_eq_ok_iff.trans (nullable_iff_written hnull)

theorem wordOf_null (n : UInt32) : wordOf .null ≠ .ok n := fun h => nomatch h

theorem textOf_null (s : String) : textOf .null ≠ .ok s := fun h => nomatch h

theorem detailOf_null (d : Detail) : detailOf .null ≠ .ok d := fun h => nomatch h

end Members

/-- A flat member does not tell a missing value from `null`. -/
theorem exists_written_join_iff {α : Type} {R : Value → α → Prop} {m : Option Value}
    {a : Option α} : (∃ b, Written R m b ∧ b.join = a) ↔ Supplied R m a := by
  constructor
  · rintro ⟨b, hb, rfl⟩
    cases hb with
    | missing => exact .missing
    | null => exact .null
    | value h => exact .value h
  · intro h
    cases h with
    | missing => exact ⟨none, .missing, rfl⟩
    | null => exact ⟨some none, .null, rfl⟩
    | value h => exact ⟨some (some _), .value h, rfl⟩

/-! ## Objects -/

/-- An object is read as a detail block exactly when its members spell one. -/
theorem detailOf_object_eq_ok_iff {ms : List (String × Value)} {d : Detail} :
    detailOf (.object ms) = .ok d ↔ d.SpelledBy ms := by
  simp only [detailOf, bind_eq_ok_iff, pure_eq_ok_iff, field_nullable_iff wordOf_null,
    field_nullable_iff textOf_null, reads_wordOf, reads_textOf]
  constructor
  · rintro ⟨line, hline, reason, hreason, suggestion, hsuggestion, rfl⟩
    exact ⟨hline, hreason, hsuggestion⟩
  · rintro ⟨hline, hreason, hsuggestion⟩
    exact ⟨_, hline, _, hreason, _, hsuggestion, rfl⟩

/-- A detail block that is not written as an array is an object that spells it. -/
theorem detailOf_eq_ok_iff {v : Value} {d : Detail} (hv : ∀ ws, v ≠ .array ws) :
    detailOf v = .ok d ↔ IsDetail v d := by
  constructor
  · intro h
    cases v with
    | object ms => exact ⟨ms, rfl, detailOf_object_eq_ok_iff.mp h⟩
    | array ws => exact absurd rfl (hv ws)
    | _ => cases h
  · rintro ⟨ms, rfl, hd⟩
    exact detailOf_object_eq_ok_iff.mpr hd

/-- **The decoder of objects, in terms of its parts.** -/
theorem ofMembers_eq_ok_iff {ms : List (String × Value)} {e : Entry} :
    ofMembers ms = .ok e ↔
      (∃ v, Value.lookup? "status" ms = some v ∧ Reads statusOf v e.status) ∧
      (∃ v, Value.lookup? "rule_no" ms = some v ∧ IsWord v e.ruleNo) ∧
      (∃ v, Value.lookup? "rule_name" ms = some v ∧ IsText v e.ruleName) ∧
      Supplied IsWord (Value.lookup? "line" ms) e.line ∧
      Supplied IsText (Value.lookup? "reason" ms) e.reason ∧
      Supplied IsText (Value.lookup? "suggestion" ms) e.suggestion ∧
      Supplied (Reads detailOf) (Value.lookup? "violation" ms) e.detail := by
  rw [← reads_wordOf, ← reads_textOf]
  simp only [← required_field_iff, ← exists_written_join_iff]
  simp only [ofMembers, bind_eq_ok_iff, pure_eq_ok_iff, field_nullable_iff wordOf_null,
    field_nullable_iff textOf_null, field_nullable_iff detailOf_null]
  constructor
  · rintro ⟨line, hline, reason, hreason, name, hname, no, hno, status, hstatus, suggestion,
      hsuggestion, detail, hdetail, st, hst, n, hn, t, ht, rfl⟩
    exact ⟨⟨status, hstatus, hst⟩, ⟨no, hno, hn⟩, ⟨name, hname, ht⟩, ⟨line, hline, rfl⟩,
      ⟨reason, hreason, rfl⟩, ⟨suggestion, hsuggestion, rfl⟩, ⟨detail, hdetail, rfl⟩⟩
  · obtain ⟨st, n, t, l, r, s, d⟩ := e
    rintro ⟨⟨status, hstatus, hst⟩, ⟨no, hno, hn⟩, ⟨name, hname, ht⟩, ⟨line, hline, rfl⟩,
      ⟨reason, hreason, rfl⟩, ⟨suggestion, hsuggestion, rfl⟩, ⟨detail, hdetail, rfl⟩⟩
    exact ⟨line, hline, reason, hreason, name, hname, no, hno, status, hstatus, suggestion,
      hsuggestion, detail, hdetail, st, hst, n, hn, t, ht, rfl⟩

/-- Members are taken for the entry that they spell, unless the status is written as an object or
the detail block as an array. -/
theorem ofMembers_eq_ok_iff_spelledBy {ms : List (String × Value)} {e : Entry}
    (hstatus : ∀ ns, Value.lookup? "status" ms ≠ some (.object ns))
    (hdetail : ∀ ws, Value.lookup? "violation" ms ≠ some (.array ws)) :
    ofMembers ms = .ok e ↔ e.SpelledBy ms := by
  have hs : ∀ v, Value.lookup? "status" ms = some v →
      (Reads statusOf v e.status ↔ IsStatus v e.status) := by
    intro v hv
    refine statusOf_eq_ok_iff ?_
    rintro ns rfl
    exact hstatus ns hv
  have hd : ∀ v, Value.lookup? "violation" ms = some v →
      ∀ d, Reads detailOf v d ↔ IsDetail v d := by
    intro v hv d
    refine detailOf_eq_ok_iff ?_
    rintro ws rfl
    exact hdetail ws hv
  rw [ofMembers_eq_ok_iff, Supplied.congr hd]
  constructor
  · rintro ⟨⟨v, hv, hst⟩, hno, hname, hline, hreason, hsuggestion, hdet⟩
    exact ⟨⟨v, hv, (hs v hv).mp hst⟩, hno, hname, hline, hreason, hsuggestion, hdet⟩
  · rintro ⟨⟨v, hv, hst⟩, hno, hname, hline, hreason, hsuggestion, hdet⟩
    exact ⟨⟨v, hv, (hs v hv).mpr hst⟩, hno, hname, hline, hreason, hsuggestion, hdet⟩

/-! ## Elements -/

/-- **A plain element is taken exactly when it spells an entry.** -/
theorem ofValue_eq_ok_iff {v : Value} {e : Entry} (hv : IsPlain v) :
    ofValue v = .ok e ↔ IsEntry v e := by
  obtain ⟨ms, rfl, hstatus, hdetail⟩ := hv
  have hms : ofMembers ms = .ok e ↔ e.SpelledBy ms :=
    ofMembers_eq_ok_iff_spelledBy hstatus hdetail
  constructor
  · intro h
    exact ⟨ms, rfl, hms.mp h⟩
  · rintro ⟨ms', hms', h⟩
    cases hms'
    exact hms.mpr h

theorem ofValue_of_isEntry {v : Value} {e : Entry} (h : IsEntry v e) : ofValue v = .ok e :=
  (ofValue_eq_ok_iff h.isPlain).mpr h

/-- A plain element that spells no entry is refused. -/
theorem exists_ofValue_eq_error {v : Value} (hv : IsPlain v) (h : ¬ ∃ e, IsEntry v e) :
    ∃ fault, ofValue v = .error fault := by
  cases hr : ofValue v with
  | error fault => exact ⟨fault, rfl⟩
  | ok e => exact absurd ⟨e, (ofValue_eq_ok_iff hv).mp hr⟩ h

end Entry

end PlcAudit
