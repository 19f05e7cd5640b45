import PlcAudit.Proofs.Entry.Output
import PlcAudit.Proofs.Json.RoundTrip

/-!
# Which outputs are accepted

An output that is an array of plain objects is accepted exactly when each of them spells an entry.
It is then read as these entries, one for each object and in the order of the objects.  Otherwise
the refusal is that of the first object that spells none: it would be the same if that object stood
alone.

* `FirstBad`: the first element of an array that spells no entry.
* `Json.readNumber_isWord_iff`: the numbers that fit a field, by their digits.
* `plain_output_accepted_iff`: the condition for acceptance, the entries and the refusal.
* `repeated_key_accepted`: an output with a repeated key.
-/

namespace PlcAudit

open Json (Value)
open Text (natOfDigits)

/-! ## Numbers -/

/-- A number is read exactly when a literal is that has it for its value. -/
theorem Json.readNumber_eq_ok_iff {cs r : List Char} {x : Json.Number} :
    Json.readNumber cs = .ok (x, r) ↔ ∃ l, Json.readLiteral cs = .ok (l, r) ∧ l.number = .ok x := by
  unfold readNumber
  constructor
  · intro h
    obtain ⟨⟨l, r'⟩, hl, h⟩ := bind_eq_ok_iff.mp h
    simp only at h
    cases hx : l.number with
    | error left =>
      rw [hx] at h
      cases h
    | ok y =>
      rw [hx] at h
      cases h
      exact ⟨l, hl, hx⟩
  · rintro ⟨l, hl, hx⟩
    refine bind_eq_ok_iff.mpr ⟨(l, r), hl, ?_⟩
    simp only [hx]
    rfl

/-- A literal is read as a natural number that fits in 64 bits exactly when it has no sign, fraction
or exponent and its digits spell the number. -/
theorem Json.Literal.number_eq_natCast_iff {l : Json.Literal} {n : Nat} (hn : n < UInt64.size) :
    l.number = .ok (.int n) ↔ l.negative = false ∧ l.fraction = none ∧ l.exponent = none ∧
      natOfDigits l.whole = n := by
  obtain ⟨negative, whole, fraction, exponent⟩ := l
  simp only [Literal.number]
  constructor
  · intro h
    split_ifs at h with hneg hwhole hwhole
    · -- a negative zero is no whole number, so the value is below zero
      have hint := Number.int.inj (Except.ok.inj h)
      omega
    · obtain ⟨x, -, hx⟩ := map_eq_ok_iff.mp h
      cases hx
    · have hint := Number.int.inj (Except.ok.inj h)
      exact ⟨Bool.eq_false_iff.mpr hneg, Option.isNone_iff_eq_none.mp hwhole.1,
        Option.isNone_iff_eq_none.mp hwhole.2.1, Int.ofNat.inj hint⟩
    · obtain ⟨x, -, hx⟩ := map_eq_ok_iff.mp h
      cases hx
  · rintro ⟨rfl, rfl, rfl, rfl⟩
    exact if_pos ⟨rfl, rfl, hn⟩

/-- **The numbers that fit a field, by their digits.**  Neither sign nor fraction nor exponent is
allowed, even where the value is whole. -/
theorem Json.readNumber_isWord_iff {cs r : List Char} {n : UInt32} :
    (∃ x, Json.readNumber cs = .ok (x, r) ∧ IsWord (.number x) n) ↔
      ∃ l, Json.readLiteral cs = .ok (l, r) ∧ l.negative = false ∧ l.fraction = none ∧
        l.exponent = none ∧ natOfDigits l.whole = n.toNat := by
  have hn : n.toNat < UInt64.size := Nat.lt_trans n.toNat_lt (by decide)
  simp only [readNumber_eq_ok_iff, ← Literal.number_eq_natCast_iff hn]
  constructor
  · rintro ⟨x, ⟨l, hl, hx⟩, hword⟩
    cases hword
    exact ⟨l, hl, hx⟩
  · rintro ⟨l, hl, hx⟩
    exact ⟨.int n.toNat, ⟨l, hl, hx⟩, rfl⟩

/-! ## Outputs -/

/-- The first element of an array that spells no entry, with what stands before and behind it. -/
structure FirstBad (vs pre : List Value) (x : Value) (post : List Value) : Prop where
  split : vs = pre ++ x :: post
  before : ∀ v ∈ pre, ∃ e, IsEntry v e
  bad : ¬ ∃ e, IsEntry x e

/-- An array that does not consist of entries has a first element that is none. -/
theorem exists_firstBad {vs : List Value} (h : ¬ ∀ v ∈ vs, ∃ e, IsEntry v e) :
    ∃ pre x post, FirstBad vs pre x post := by
  obtain ⟨pre, x, post, hsplit, hpre, hx⟩ := exists_first_not h
  exact ⟨pre, x, post, hsplit, hpre, hx⟩

/-- The first element that spells no entry decides the refusal: what stands before and behind it
does not matter. -/
theorem parseOutput_of_firstBad {output : String} {vs pre post : List Value} {x : Value}
    {fault : EntryFault} (hread : Json.read output.toList = .ok (.array vs))
    (hbad : FirstBad vs pre x post) (hx : Entry.ofValue x = .error fault) :
    parseOutput output = .error (.malformedOutput (OutputFault.badEntry fault).message) := by
  obtain ⟨rfl, hpre, -⟩ := hbad
  refine parseOutput_of_append_cons hread ?_ hx
  intro v hv
  obtain ⟨e, he⟩ := hpre v hv
  exact ⟨e, Entry.ofValue_of_isEntry he⟩

/-- An array of plain objects is read as the entries that they spell. -/
theorem parseOutput_eq_ok_iff_of_isPlain {output : String} {vs : List Value} {es : List Entry}
    (hread : Json.read output.toList = .ok (.array vs)) (hplain : ∀ v ∈ vs, IsPlain v) :
    parseOutput output = .ok es ↔ List.Forall₂ IsEntry vs es := by
  have hvs : ∀ v ∈ vs, ∀ e, Entry.ofValue v = .ok e ↔ IsEntry v e :=
    fun v hv e => Entry.ofValue_eq_ok_iff (hplain v hv)
  rw [parseOutput_eq_ok_iff, ← forall₂_congr_of_mem hvs]
  constructor
  · rintro ⟨vs', hread', h⟩
    rw [hread] at hread'
    cases hread'
    exact h
  · intro h
    exact ⟨vs, hread, h⟩

/-- **The outputs that are accepted.**  An output that is an array of plain objects is accepted
exactly when each of them spells an entry, and then it is read as these entries in their order.
Otherwise it is refused on account of the first that spells none, as is every output in which that
one is the first: the one that holds nothing else, in particular.  The numbers that fit a field are
those whose digits spell them, without sign, fraction and exponent. -/
theorem plain_output_accepted_iff {output : String} {vs : List Value}
    (hread : Json.read output.toList = .ok (.array vs)) (hplain : ∀ v ∈ vs, IsPlain v) :
    ((∃ es, parseOutput output = .ok es) ↔ ∀ v ∈ vs, ∃ e, IsEntry v e) ∧
      (∀ es, parseOutput output = .ok es ↔ List.Forall₂ IsEntry vs es) ∧
      ((¬ ∀ v ∈ vs, ∃ e, IsEntry v e) → ∃ pre x post fault, FirstBad vs pre x post ∧
        entriesOfValue (.array [x]) = .error fault ∧
        parseOutput output = .error (.malformedOutput fault.message) ∧
        ∀ output' vs' pre' post', Json.read output'.toList = .ok (.array vs') →
          FirstBad vs' pre' x post' → parseOutput output' = parseOutput output) ∧
      ∀ cs r n, (∃ x, Json.readNumber cs = .ok (x, r) ∧ IsWord (.number x) n) ↔
        ∃ l, Json.readLiteral cs = .ok (l, r) ∧ l.negative = false ∧ l.fraction = none ∧
          l.exponent = none ∧ natOfDigits l.whole = n.toNat := by
  have hentries : ∀ es, parseOutput output = .ok es ↔ List.Forall₂ IsEntry vs es :=
    fun es => parseOutput_eq_ok_iff_of_isPlain hread hplain
  refine ⟨?_, hentries, ?_, fun cs r n => Json.readNumber_isWord_iff⟩
  · simp only [hentries]
    exact exists_forall₂_iff
  · intro h
    obtain ⟨pre, x, post, hbad⟩ := exists_firstBad h
    have hx : x ∈ vs := by
      rw [hbad.split]
      exact List.mem_append_right pre List.mem_cons_self
    obtain ⟨fault, hfault⟩ := Entry.exists_ofValue_eq_error (hplain x hx) hbad.bad
    have hrefused := parseOutput_of_firstBad hread hbad hfault
    refine ⟨pre, x, post, .badEntry fault, hbad, ?_, hrefused, ?_⟩
    · rw [entriesOfValue, entriesOfItems, List.mapM_cons, hfault]
      rfl
    · intro output' vs' pre' post' hread' hbad'
      rw [hrefused]
      exact parseOutput_of_firstBad hread' hbad' hfault

/-- An output with a repeated key, of which the last value counts. -/
theorem repeated_key_accepted :
    parseOutput "[\x7b\"status\":\"OK\",\"rule_no\":7,\"rule_name\":\"n\",\"rule_no\":8\x7d]" =
      .ok [{ status := .ok, ruleNo := 8, ruleName := "n" }] := by
  have hread : Json.read
      "[\x7b\"status\":\"OK\",\"rule_no\":7,\"rule_name\":\"n\",\"rule_no\":8\x7d]".toList =
      .ok (.array [.object [("status", .string "OK"), ("rule_no", .number (.int 7)),
        ("rule_name", .string "n"), ("rule_no", .number (.int 8))]]) := by
    refine Json.read_toList_of_eq_write (by decide +kernel)
      (.array (List.forall_mem_singleton.mpr (.object ?_)))
    simp only [List.forall_mem_cons]
    exact ⟨.string _, .int (by decide), .string _, .int (by decide), nofun⟩
  have hentry : IsEntry (.object [("status", .string "OK"), ("rule_no", .number (.int 7)),
      ("rule_name", .string "n"), ("rule_no", .number (.int 8))])
      { status := .ok, ruleNo := 8, ruleName := "n" } := by
    refine ⟨_, rfl, ⟨_, rfl, "OK", rfl, .ok⟩, ⟨_, rfl, rfl⟩, ⟨_, rfl, rfl⟩, ?_, ?_, ?_, ?_⟩
    all_goals exact .missing
  have hplain := List.forall_mem_singleton.mpr hentry.isPlain
  exact ((plain_output_accepted_iff hread hplain).2.1 _).mpr (.cons hentry .nil)

end PlcAudit
