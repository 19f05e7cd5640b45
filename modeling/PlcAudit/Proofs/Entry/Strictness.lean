import PlcAudit.Proofs.Entry.Output
import PlcAudit.Proofs.Json.RoundTrip

/-!
# How strict the decoder of entries is

An engine is to write each entry as an object, its status as one of four strings and its detail
block as an object.  The decoder keeps to that in all but three respects: it also takes an entry
that is written as the array of its fields, a status that is written as an object with the spelling
for its only key, and a detail block that is written as the array of its fields.  Nothing else gets
through, and one element that does not get through refuses the whole output.

* `StrictEntry`: the form that is asked for.
* `LooseEntry`: the three other forms that are taken, each with what the decoder still checks.
* `strict_or_loose_of_ofValue`: an element that is taken has one of the two forms.
* `StrictEntry.isPlain`, `LooseEntry.not_isPlain`: the two are told apart by three kinds of value.
* `accepted_strict_iff`: the exact condition under which an accepted output is strict.
* `positional_entry_accepted`: an output that is accepted and not strict.
-/

namespace PlcAudit

open Json (Value)

/-! ## The two forms -/

/-- The form that is asked for: an object whose status is one of the four strings, and whose detail
block, if the key is there, is `null` or an object. -/
def StrictEntry (v : Value) : Prop :=
  ∃ ms, v = .object ms ∧
    (∃ s st, Value.lookup? "status" ms = some (.string s) ∧ Status.Spelled s st) ∧
    ∀ w, Value.lookup? "violation" ms = some w → w = .null ∨ ∃ ns, w = .object ns

/-- The members of an object that stands for a status: one key, which spells it, with the value
`null`. -/
def TagsStatus (ns : List (String × Value)) : Prop :=
  ∃ key st, Status.Spelled key st ∧ (∀ m ∈ ns, m.1 = key) ∧ Value.lookup? key ns = some .null

/-- The other forms that are taken. -/
inductive LooseEntry : Value → Prop where
  /-- The array of the fields, of which the last four may be left off. -/
  | positional {vs : List Value} (hge : 3 ≤ vs.length) (hle : vs.length ≤ 7) :
      LooseEntry (.array vs)
  /-- An object whose status is one as well. -/
  | taggedStatus {ms ns : List (String × Value)}
      (h : Value.lookup? "status" ms = some (.object ns)) (hns : TagsStatus ns) :
      LooseEntry (.object ms)
  /-- An object whose detail block is the array of its fields, of which any may be left off. -/
  | positionalDetail {ms : List (String × Value)} {ws : List Value}
      (h : Value.lookup? "violation" ms = some (.array ws)) (hle : ws.length ≤ 3) :
      LooseEntry (.object ms)

/-- The form that is asked for is plain. -/
theorem StrictEntry.isPlain {v : Value} (h : StrictEntry v) : IsPlain v := by
  obtain ⟨ms, rfl, ⟨s, st, hstatus, -⟩, hdetail⟩ := h
  refine ⟨ms, rfl, ?_, ?_⟩
  · intro ns hns
    rw [hns] at hstatus
    cases hstatus
  · intro ws hws
    rcases hdetail _ hws with hnull | ⟨ns, hns⟩
    · cases hnull
    · cases hns

/-- The other forms are not. -/
theorem LooseEntry.not_isPlain {v : Value} (h : LooseEntry v) : ¬ IsPlain v := by
  rintro ⟨ms, rfl, hstatus, hdetail⟩
  cases h with
  | taggedStatus h hns => exact hstatus _ h
  | positionalDetail h hle => exact hdetail _ h

namespace Entry

/-! ## What the decoder still checks -/

theorem atMost_eq_ok_iff {n : Nat} {vs : List Value} {u : Unit} :
    atMost n vs = .ok u ↔ vs.length ≤ n := by
  unfold atMost
  split
  · next h => exact ⟨fun _ => h, fun _ => rfl⟩
  · next h => exact ⟨fun h' => (by cases h'), fun h' => absurd h' h⟩

theorem lt_length_of_requiredElement {α : Type} {read : Value → Except EntryFault α}
    {vs : List Value} {i : Nat} {a : α} (h : requiredElement read vs i = .ok a) :
    i < vs.length := by
  by_contra hi
  have hnone : vs[i]? = none := List.getElem?_eq_none (Nat.le_of_not_lt hi)
  simp only [requiredElement, element, hnone] at h
  cases h

/-- An array is taken for an entry only if it has three to seven elements. -/
theorem length_of_ofElements {vs : List Value} {e : Entry} (h : ofElements vs = .ok e) :
    3 ≤ vs.length ∧ vs.length ≤ 7 := by
  simp only [ofElements, bind_eq_ok_iff] at h
  obtain ⟨_, _, _, _, name, hname, _, _, _, _, _, _, _, _, _, hle, _⟩ := h
  exact ⟨lt_length_of_requiredElement hname, atMost_eq_ok_iff.mp hle⟩

/-- An array is taken for a detail block only if it has at most three elements. -/
theorem length_of_detailOf {ws : List Value} {d : Detail} (h : detailOf (.array ws) = .ok d) :
    ws.length ≤ 3 := by
  simp only [detailOf, bind_eq_ok_iff] at h
  obtain ⟨_, _, _, _, _, _, _, hle, _⟩ := h
  exact atMost_eq_ok_iff.mp hle

/-- A key that occurs among the members has a value. -/
theorem lookup?_ne_none_of_mem {key : String} {ns : List (String × Value)}
    (h : key ∈ ns.map (·.1)) : Value.lookup? key ns ≠ none := by
  obtain ⟨m, hm, rfl⟩ := List.mem_map.mp h
  intro hnone
  have hfind := List.find?_eq_none.mp (Option.map_eq_none_iff.mp hnone) m (List.mem_reverse.mpr hm)
  exact hfind (beq_self_eq_true m.1)

/-- An object is taken for a status only if its one key spells the status. -/
theorem spelled_of_statusOf {ns : List (String × Value)} {st : Status}
    (h : statusOf (.object ns) = .ok st) :
    ∃ key, Status.Spelled key st ∧ (∀ m ∈ ns, m.1 = key) ∧ Value.lookup? key ns = some .null := by
  simp only [statusOf] at h
  split at h
  · next key hkeys =>
    have hmem : ∀ {k : String}, k ∈ ns.map (·.1) ↔ k = key := by
      intro k
      rw [← List.mem_eraseDups, hkeys, List.mem_singleton]
    obtain ⟨st', hst', h⟩ := bind_eq_ok_iff.mp h
    cases hv : Value.lookup? key ns with
    | none => exact absurd hv (lookup?_ne_none_of_mem (hmem.mpr rfl))
    | some v =>
      rw [hv] at h
      cases v with
      | null =>
        cases h
        exact ⟨key, statusNamed_eq_ok_iff.mp hst',
          fun m hm => hmem.mp (List.mem_map_of_mem hm), hv⟩
      | _ => cases h
  · cases h

theorem tagsStatus_of_statusOf {ns : List (String × Value)} {st : Status}
    (h : statusOf (.object ns) = .ok st) : TagsStatus ns := by
  obtain ⟨key, hkey, hkeys, hnull⟩ := spelled_of_statusOf h
  exact ⟨key, st, hkey, hkeys, hnull⟩

/-- The status of an entry that is taken is a string that spells it, or an object that does. -/
theorem string_or_tags_of_statusOf {v : Value} {st : Status} (h : statusOf v = .ok st) :
    (∃ s, v = .string s ∧ Status.Spelled s st) ∨ ∃ ns, v = .object ns ∧ TagsStatus ns := by
  cases v with
  | string s => exact Or.inl ⟨s, rfl, statusNamed_eq_ok_iff.mp h⟩
  | object ns => exact Or.inr ⟨ns, rfl, tagsStatus_of_statusOf h⟩
  | _ => cases h

/-- The detail block of an entry that is taken is an object or a short array. -/
theorem object_or_array_of_detailOf {v : Value} {d : Detail} (h : detailOf v = .ok d) :
    (∃ ns, v = .object ns) ∨ ∃ ws, v = .array ws ∧ ws.length ≤ 3 := by
  cases v with
  | object ns => exact Or.inl ⟨ns, rfl⟩
  | array ws => exact Or.inr ⟨ws, rfl, length_of_detailOf h⟩
  | _ => cases h

/-! ## What gets through -/

/-- **An element that is taken has one of the two forms.** -/
theorem strict_or_loose_of_ofValue {v : Value} {e : Entry} (h : ofValue v = .ok e) :
    StrictEntry v ∨ LooseEntry v := by
  cases v with
  | array vs =>
    obtain ⟨hge, hle⟩ := length_of_ofElements h
    exact Or.inr (.positional hge hle)
  | object ms =>
    obtain ⟨⟨v, hv, hstatus⟩, -, -, -, -, -, hdetail⟩ := ofMembers_eq_ok_iff.mp h
    rcases string_or_tags_of_statusOf hstatus with ⟨s, rfl, hs⟩ | ⟨ns, rfl, hns⟩
    · generalize hw : Value.lookup? "violation" ms = w at hdetail
      generalize e.detail = d at hdetail
      have hstrict : (∀ u, w = some u → u = .null ∨ ∃ ns, u = .object ns) →
          StrictEntry (.object ms) := by
        rintro h'
        exact ⟨ms, rfl, ⟨s, e.status, hv, hs⟩, fun u hu => h' u (hw.symm.trans hu)⟩
      cases hdetail with
      | missing => exact Or.inl (hstrict fun u hu => nomatch hu)
      | null => exact Or.inl (hstrict fun u hu => Or.inl (Option.some.inj hu).symm)
      | value hd =>
        rcases object_or_array_of_detailOf hd with ⟨ns, rfl⟩ | ⟨ws, rfl, hle⟩
        · exact Or.inl (hstrict fun u hu => Or.inr ⟨ns, (Option.some.inj hu).symm⟩)
        · exact Or.inr (.positionalDetail hw hle)
    · exact Or.inr (.taggedStatus hv hns)
  | _ => cases h

end Entry

/-- Every element of an accepted output is taken. -/
theorem strict_or_loose_of_parseOutput {output : String} {es : List Entry} {vs : List Value}
    (h : parseOutput output = .ok es) (hr : Json.read output.toList = .ok (.array vs)) :
    ∀ v ∈ vs, StrictEntry v ∨ LooseEntry v := by
  intro v hv
  obtain ⟨vs', hr', hes⟩ := parseOutput_eq_ok_iff.mp h
  rw [hr] at hr'
  cases hr'
  obtain ⟨e, he⟩ := exists_forall₂_iff.mp ⟨es, hes⟩ v hv
  exact Entry.strict_or_loose_of_ofValue he

/-- Among the elements that are taken, the strict ones are those that are plain. -/
theorem strictEntry_iff_isPlain {v : Value} (h : StrictEntry v ∨ LooseEntry v) :
    StrictEntry v ↔ IsPlain v := by
  constructor
  · exact StrictEntry.isPlain
  · intro hplain
    exact h.resolve_right fun hloose => hloose.not_isPlain hplain

/-- **The exact condition under which an accepted output is strict.**  An output that is accepted is
an array.  All its elements have the form that is asked for exactly when none of them is an array,
none has an object for its status and none has an array for its detail block; and those that do not
have it are in one of the three loose forms.  An element that is in neither refuses the output as
malformed, wherever it stands. -/
theorem accepted_strict_iff (output : String) :
    (∀ es, parseOutput output = .ok es →
      ∃ vs, Json.read output.toList = .ok (.array vs) ∧
        ((∀ v ∈ vs, StrictEntry v) ↔ ∀ v ∈ vs, IsPlain v) ∧
        ∀ v ∈ vs, StrictEntry v ∨ LooseEntry v) ∧
      ∀ vs, Json.read output.toList = .ok (.array vs) →
        (∃ v ∈ vs, ¬ StrictEntry v ∧ ¬ LooseEntry v) →
        ∃ m, parseOutput output = .error (.malformedOutput m) := by
  constructor
  · intro es h
    obtain ⟨vs, hr, -⟩ := parseOutput_eq_ok_iff.mp h
    have hforms := strict_or_loose_of_parseOutput h hr
    have hstrict : ∀ v ∈ vs, (StrictEntry v ↔ IsPlain v) :=
      fun v hv => strictEntry_iff_isPlain (hforms v hv)
    exact ⟨vs, hr, forall₂_congr hstrict, hforms⟩
  · rintro vs hr ⟨v, hv, hstrict, hloose⟩
    refine exists_malformedOutput ?_
    rintro ⟨es, h⟩
    rcases strict_or_loose_of_parseOutput h hr v hv with h' | h'
    · exact hstrict h'
    · exact hloose h'

/-- **An output that is accepted and not strict.**  Its one element is the array of the three fields
that an entry has to have. -/
theorem positional_entry_accepted :
    parseOutput "[[\"OK\",1,\"n\"]]" = .ok [{ status := .ok, ruleNo := 1, ruleName := "n" }] ∧
      ∃ v, Json.read "[[\"OK\",1,\"n\"]]".toList = .ok (.array [v]) ∧ ¬ StrictEntry v := by
  have hread : Json.read "[[\"OK\",1,\"n\"]]".toList =
      .ok (.array [.array [.string "OK", .number (.int 1), .string "n"]]) := by
    refine Json.read_toList_of_eq_write (by decide +kernel)
      (.array (List.forall_mem_singleton.mpr (.array ?_)))
    simp only [List.forall_mem_cons]
    exact ⟨.string _, .int (by decide), .string _, nofun⟩
  refine ⟨by decide +kernel, _, hread, ?_⟩
  rintro ⟨ms, hms, -⟩
  cases hms

/-- So is a status that is written as an object. -/
example :
    parseOutput "[\x7b\"status\":\x7b\"OK\":null\x7d,\"rule_no\":1,\"rule_name\":\"n\"\x7d]" =
      .ok [{ status := .ok, ruleNo := 1, ruleName := "n" }] := by
  decide +kernel

/-- So is a detail block that is written as an array. -/
example :
    parseOutput
        "[\x7b\"status\":\"OK\",\"rule_no\":1,\"rule_name\":\"n\",\"violation\":[null]\x7d]" =
      .ok [{ status := .ok, ruleNo := 1, ruleName := "n",
             detail := some { line := some none } }] := by
  decide +kernel

end PlcAudit
